import OpenQasm.Proofs.Grammar.Outcomes
import OpenQasm.Proofs.Grammar.Reporting

/-!
# Two parses side by side

Two parses of one text under different options go through the same states but for what they report,
until one of them does what the other one does not. Which reports may differ, and what becomes of
the two once they have parted, is left open here: a comparison is `Lawful` if it copes with the few
pieces of the grammar that look at the options, and then it copes with the whole grammar.
-/

namespace OpenQasm.Grammar

/-- The same tokens are ahead, and the same has been reported and recovered from. -/
structure Alike (state other : State) : Prop where
  rest : other.rest = state.rest
  position : other.position = state.position
  previousEnd : other.previousEnd = state.previousEnd
  diagnostics : other.diagnostics = state.diagnostics
  unwinding : other.unwinding = state.unwinding
  resync : other.resync = state.resync

/-- A parse set beside another one of the same text. -/
structure Comparison where
  left : Context
  right : Context
  /-- What the right parse may have reported when the left one is in a state. Apart from that they
  are in the same state. -/
  Meets : State → Diagnostics → Prop
  /-- The states that the two may be in when they have parted. -/
  Parts : State → State → Prop
  /-- Whether the left parse stops where they part, and goes on to stop up to the outermost block.
  -/
  stops : Prop
  /-- The crashes of the right parse where the left one may go on. -/
  Halts : Crash → Prop

namespace Comparison

/-- The two parses are in the same state but for the reports, and nested so deep. -/
structure At (c : Comparison) (depth blocks : Nat) (state : State) (reports : Diagnostics) :
    Prop where
  meets : c.Meets state reports
  depth : state.depth = depth
  openBlocks : state.openBlocks = blocks

/-- How two parsers end that were started side by side. -/
inductive Joins (c : Comparison) {α : Type} (depth blocks : Nat) :
    EStateM.Result Stop State α → EStateM.Result Stop State α → Prop
  | ok {value : α} {state : State} {reports : Diagnostics} :
      c.At depth blocks state reports →
      Joins c depth blocks (.ok value state) (.ok value (state.reporting reports))
  | error {stop : Stop} {state : State} {reports : Diagnostics} :
      c.At depth blocks state reports →
      Joins c depth blocks (.error stop state) (.error stop (state.reporting reports))
  | part {left right : EStateM.Result Stop State α} :
      c.Parts (ending left) (ending right) →
      (c.stops → ∃ failed, left = .error .recovered failed ∧ failed.openBlocks = blocks) →
      Joins c depth blocks left right
  | halt {left : EStateM.Result Stop State α} {failure : Crash} {after : State} :
      c.Halts failure → Joins c depth blocks left (.error (.crash failure) after)

/-- Two parsers started side by side stay so, or part as they may. -/
def Keeps (c : Comparison) {α : Type} (depth blocks : Nat) (parser other : Parser α) : Prop :=
  ∀ state reports, c.At depth blocks state reports →
    c.Joins depth blocks (parser c.left state) (other c.right (state.reporting reports))

/-- What a comparison has to say about the moves of a parser. Only reports of syntax errors and
nesting look at the options. -/
structure Lawful (c : Comparison) : Prop where
  source : c.right.source = c.left.source
  text : c.right.text = c.left.text
  alike : ∀ {state other reports}, Alike state other → c.Meets state reports → c.Meets other reports
  pass : ∀ {state reports} n, c.Meets state reports → c.Meets (State.pass n state) reports
  push : ∀ {state reports} (diagnostic : Diagnostic), c.Meets state reports →
    diagnostic.code ≠ .syntaxError ∨ diagnostic.message ∈ placementMessages →
    c.Meets (state.reporting (state.diagnostics.push diagnostic)) (reports.push diagnostic)
  settle : ∀ {state reports}, c.Meets state reports →
    c.Meets { state with unwinding := none } reports
  resync : ∀ {state reports}, c.Meets state reports →
    c.Meets { state with resync := some state.position } reports
  parts_alike : ∀ {state other after}, Alike state other → c.Parts state after → c.Parts other after
  parts_left : ∀ {state other after}, ¬c.stops → Reported state other → c.Parts state after →
    c.Parts other after
  parts_right : ∀ {state after other}, Reported after other → c.Parts state after →
    c.Parts state other
  parts_unwinding : ∀ {state after}, c.stops → c.Parts state after → state.unwinding.isSome
  reportSyntax : ∀ {depth blocks message}, message ∉ placementMessages →
    c.Keeps depth blocks (reportSyntax message) (reportSyntax message)
  limits : c.left.options.maxDepth ≤ c.right.options.maxDepth
  overflow : ∀ {α : Type} {depth blocks} {other : Parser α}, Reports other →
    c.left.options.maxDepth ≤ depth → c.Keeps depth blocks overflow (nested other)

section
variable {c : Comparison} {α β : Type} {depth blocks : Nat}

/-! ## Control -/

namespace Keeps

/-- An answer keeps to the comparison. -/
theorem pure {value : α} : c.Keeps depth blocks (pure value) (pure value) :=
  fun _ _ hat => .ok hat

/-- So does a failure. -/
theorem throw {stop : Stop} : c.Keeps depth blocks (throw stop : Parser α) (throw stop) :=
  fun _ _ hat => .error hat

/-- Once the two have parted, or the right one has crashed, it stays so. -/
theorem bind {parser other : Parser α} {next next' : α → Parser β} (hl : c.Lawful)
    (h : c.Keeps depth blocks parser other) (hr : ∀ value, Reports (next value))
    (hr' : ∀ value, Reports (next' value))
    (hn : ∀ value, c.Keeps depth blocks (next value) (next' value)) :
    c.Keeps depth blocks (parser >>= next) (other >>= next') := by
  intro state reports hat
  have hfirst := h state reports hat
  generalize hleft : parser c.left state = left at hfirst
  generalize hright : other c.right (state.reporting reports) = right at hfirst
  cases hfirst with
  | ok hmiddle =>
    rw [bind_of_ok hleft, bind_of_ok hright]
    exact hn _ _ _ hmiddle
  | error hmiddle =>
    rw [bind_of_error hleft, bind_of_error hright]
    exact .error hmiddle
  | part hparts hstops =>
    rw [← hleft, ← hright] at hparts
    have hparts := hl.parts_right (Reports.behind hr' _ _) hparts
    by_cases hs : c.stops
    · obtain ⟨failed, rfl, hblocks⟩ := hstops hs
      rw [hleft] at hparts
      rw [bind_of_error hleft]
      exact .part hparts fun _ => ⟨failed, rfl, hblocks⟩
    · exact .part (hl.parts_left hs (Reports.behind hr _ _) hparts) fun h => absurd h hs
  | halt hhalts =>
    rw [bind_of_error hright]
    exact .halt hhalts

/-- What is looked at is the same for both. -/
theorem observe {parser : Parser α} (value : Context → State → α)
    (hv : ∀ context state, parser context state = .ok (value context state) state)
    (heq : ∀ state reports, value c.right (state.reporting reports) = value c.left state) :
    c.Keeps depth blocks parser parser := by
  intro state reports hat
  rw [hv, hv, heq]
  exact .ok hat

/-- The state is looked at but for its reports. -/
theorem get {next next' : State → Parser β}
    (heq : ∀ state reports, next' (state.reporting reports) = next' state)
    (h : ∀ state, c.Keeps depth blocks (next state) (next' state)) :
    c.Keeps depth blocks (get >>= next) (get >>= next') := by
  intro state reports hat
  rw [get_bind, get_bind, heq]
  exact h state state reports hat

/-- So are the tokens ahead. -/
theorem looking {next next' : View → Parser α} (hl : c.Lawful)
    (h : ∀ view, c.Keeps depth blocks (next view) (next' view)) :
    c.Keeps depth blocks (looking next) (looking next') := by
  intro state reports hat
  have hview : (state.reporting reports).view c.right = state.view c.left := by
    unfold State.view
    rw [hl.source, hl.text]
    rfl
  rw [Grammar.looking, Grammar.looking, hview]
  exact h (state.view c.left) state reports hat

/-- So is the next kind. -/
theorem peek {next next' : Option TokenKind → Parser β}
    (h : ∀ kind, c.Keeps depth blocks (next kind) (next' kind)) :
    c.Keeps depth blocks (peek >>= next) (peek >>= next') := by
  intro state reports hat
  have hpeek : ∀ context state,
      Grammar.peek context state = .ok (state.rest.head?.map Token.kind) state := fun _ _ => rfl
  rw [bind_of_ok (hpeek _ _), bind_of_ok (hpeek _ _)]
  exact h _ state reports hat

/-- A choice keeps to it if both of its sides do. -/
theorem ite {p : Prop} [Decidable p] {yes no yes' no' : Parser α}
    (hy : c.Keeps depth blocks yes yes') (hn : c.Keeps depth blocks no no') :
    c.Keeps depth blocks (if p then yes else no) (if p then yes' else no') := by
  split
  · exact hy
  · exact hn

/-- A loop keeps to it if its rounds do. -/
theorem iterate {round round' : α → Parser (Turn α β)} (hl : c.Lawful)
    (hr : ∀ value, Reports (round value)) (hr' : ∀ value, Reports (round' value))
    (h : ∀ value, c.Keeps depth blocks (round value) (round' value)) (value : α) :
    c.Keeps depth blocks (iterate round value) (iterate round' value) := by
  refine .get (fun _ _ => rfl) fun start => ?_
  generalize start.rest = tokens
  induction tokens generalizing value with
  | nil =>
    refine .bind hl (h value) ?_ ?_ ?_ <;> rintro (value | result)
    · exact .throw
    · exact .pure
    · exact .throw
    · exact .pure
    · exact .throw
    · exact .pure
  | cons token tokens ih =>
    refine .bind hl (h value) ?_ ?_ ?_ <;> rintro (value | result)
    · exact .iterateAlong hr tokens value
    · exact .pure
    · exact .iterateAlong hr' tokens value
    · exact .pure
    · exact ih value
    · exact .pure

/-- A stop that is caught lets the two go on side by side, if the left one need not stop. -/
theorem attempt {parser other : Parser α} (hs : ¬c.stops) (h : c.Keeps depth blocks parser other) :
    c.Keeps depth blocks (attempt parser) (attempt other) := by
  have hend : ∀ {context base} {parser : Parser α},
      ending (Grammar.attempt parser context base) = ending (parser context base) := by
    intro context base parser
    unfold Grammar.attempt
    split <;> simp only [*] <;> rfl
  intro state reports hat
  have hinside := h state reports hat
  generalize hleft : parser c.left state = left at hinside
  generalize hright : other c.right (state.reporting reports) = right at hinside
  cases hinside with
  | ok hmiddle =>
    simp only [Grammar.attempt, hleft, hright]
    exact .ok hmiddle
  | @error stop _ _ hmiddle =>
    simp only [Grammar.attempt, hleft, hright]
    cases stop with
    | recovered => exact .ok hmiddle
    | crash failure => exact .error hmiddle
  | part hparts =>
    rw [← hleft, ← hright] at hparts
    exact .part (by rwa [hend, hend]) fun h => absurd h hs
  | halt hhalts =>
    simp only [Grammar.attempt, hright]
    exact .halt hhalts

end Keeps

/-! ## Changes of the state -/

/-- A change of what is nested, pushed, declared or in force. -/
structure Turns (change : State → State) (depth blocks depth' blocks' : Nat) : Prop where
  alike : ∀ state, Alike state (change state)
  reporting : ∀ state reports, change (state.reporting reports) = (change state).reporting reports
  depth : ∀ state, state.depth = depth → (change state).depth = depth'
  openBlocks : ∀ state, state.openBlocks = blocks → (change state).openBlocks = blocks'

section
variable {depth' blocks' : Nat} {move enter leave : State → State} {state : State}
  {reports : Diagnostics}

/-- A turn of the state leads from one place of the comparison to another. -/
theorem At.turn (hl : c.Lawful) (ht : Turns move depth blocks depth' blocks')
    (hat : c.At depth blocks state reports) : c.At depth' blocks' (move state) reports where
  meets := hl.alike (ht.alike state) hat.meets
  depth := ht.depth state hat.depth
  openBlocks := ht.openBlocks state hat.openBlocks

/-- A turn that stays in its place keeps to it. -/
theorem Keeps.change (hl : c.Lawful) (ht : Turns move depth blocks depth blocks) :
    c.Keeps depth blocks (modify move : Parser Unit) (modify move) := by
  intro state reports hat
  have hright : (modify move : Parser Unit) c.right (state.reporting reports) =
      .ok () ((move state).reporting reports) :=
    congrArg (EStateM.Result.ok ()) (ht.reporting state reports)
  rw [hright]
  exact .ok (hat.turn hl ht)

/-- A parser keeps to it between two turns, there and back. -/
theorem Keeps.around {parser other : Parser α} (hl : c.Lawful)
    (he : Turns enter depth blocks depth' blocks') (hv : Turns leave depth' blocks' depth blocks)
    (h : c.Keeps depth' blocks' parser other) :
    c.Keeps depth blocks (around enter leave parser) (around enter leave other) := by
  intro state reports hat
  have hend : ∀ {context base} {parser : Parser α},
      ending (Grammar.around enter leave parser context base) =
        leave (ending (parser context (enter base))) := by
    intro context base parser
    unfold Grammar.around
    split <;> simp only [*] <;> rfl
  have hinside := h (enter state) reports (hat.turn hl he)
  rw [← he.reporting] at hinside
  generalize hleft : parser c.left (enter state) = left at hinside
  generalize hright : other c.right (enter (state.reporting reports)) = right at hinside
  cases hinside with
  | ok hmiddle =>
    simp only [Grammar.around, hleft, hright, hv.reporting]
    exact .ok (hmiddle.turn hl hv)
  | error hmiddle =>
    simp only [Grammar.around, hleft, hright, hv.reporting]
    exact .error (hmiddle.turn hl hv)
  | part hparts hstops =>
    rw [← hleft, ← hright] at hparts
    have hsame : Reported (ending (other c.right (enter (state.reporting reports))))
        (leave (ending (other c.right (enter (state.reporting reports))))) :=
      .same (hv.alike _).diagnostics
    have hparts := hl.parts_right hsame (hl.parts_alike (hv.alike _) hparts)
    rw [← hend, ← hend] at hparts
    refine .part hparts fun hs => ?_
    obtain ⟨failed, rfl, hblocks⟩ := hstops hs
    exact ⟨leave failed, by simp only [Grammar.around, hleft], hv.openBlocks failed hblocks⟩
  | halt hhalts =>
    simp only [Grammar.around, hright]
    exact .halt hhalts

end

/-- One level further in is a turn. -/
theorem turns_deeper : Turns (fun state => { state with depth := state.depth + 1 })
    depth blocks (depth + 1) blocks where
  alike := fun _ => ⟨rfl, rfl, rfl, rfl, rfl, rfl⟩
  reporting := fun _ _ => rfl
  depth := fun _ h => congrArg (· + 1) h
  openBlocks := fun _ h => h

/-- So is the way back. -/
theorem turns_shallower : Turns (fun state => { state with depth := state.depth - 1 })
    (depth + 1) blocks depth blocks where
  alike := fun _ => ⟨rfl, rfl, rfl, rfl, rfl, rfl⟩
  reporting := fun _ _ => rfl
  depth := fun _ h => congrArg (· - 1) h
  openBlocks := fun _ h => h

/-- A parser that keeps to the comparison one level further in keeps to it with the turns around it.
-/
theorem Keeps.deeper {parser other : Parser α} (hl : c.Lawful)
    (h : c.Keeps (depth + 1) blocks parser other) :
    c.Keeps depth blocks (deeper parser) (deeper other) :=
  .around hl turns_deeper turns_shallower h

/-- A brace that opens is a turn. -/
theorem turns_opened : Turns (fun state => { state with openBlocks := state.openBlocks + 1 })
    depth blocks depth (blocks + 1) where
  alike := fun _ => ⟨rfl, rfl, rfl, rfl, rfl, rfl⟩
  reporting := fun _ _ => rfl
  depth := fun _ h => h
  openBlocks := fun _ h => congrArg (· + 1) h

/-- So is one that closes. -/
theorem turns_closed : Turns (fun state => { state with openBlocks := state.openBlocks - 1 })
    depth (blocks + 1) depth blocks where
  alike := fun _ => ⟨rfl, rfl, rfl, rfl, rfl, rfl⟩
  reporting := fun _ _ => rfl
  depth := fun _ h => h
  openBlocks := fun _ h => congrArg (· - 1) h

/-- A parser that keeps to it within a brace keeps to it with the turns around it. -/
theorem Keeps.blockOpen {parser other : Parser α} (hl : c.Lawful)
    (h : c.Keeps depth (blocks + 1) parser other) :
    c.Keeps depth blocks (blockOpen parser) (blockOpen other) :=
  .around hl turns_opened turns_closed h

/-- A change that leaves the nesting as it is. -/
theorem turns_of_same {change : State → State} (ha : ∀ state, Alike state (change state))
    (hr : ∀ state reports, change (state.reporting reports) = (change state).reporting reports)
    (hd : ∀ state, (change state).depth = state.depth)
    (hb : ∀ state, (change state).openBlocks = state.openBlocks) :
    Turns change depth blocks depth blocks :=
  ⟨ha, hr, fun state h => (hd state).trans h, fun state h => (hb state).trans h⟩

/-- A parser that keeps to the comparison does so within a scope, which is no turn. -/
theorem Keeps.inScope {parser other : Parser α} (hl : c.Lawful)
    (h : c.Keeps depth blocks parser other) :
    c.Keeps depth blocks (inScope parser) (inScope other) := by
  refine .around hl (turns_of_same ?_ (fun _ _ => rfl) (fun _ => rfl) fun _ => rfl)
    (turns_of_same ?_ (fun _ _ => rfl) (fun _ => rfl) fun _ => rfl) h
  · exact fun _ => ⟨rfl, rfl, rfl, rfl, rfl, rfl⟩
  · exact fun _ => ⟨rfl, rfl, rfl, rfl, rfl, rfl⟩

end

end Comparison

/-! ## Pieces -/

section
variable {c : Comparison} {inner inner' : Level} {α β : Type} {depth blocks : Nat}

open Comparison

/-- Tokens are passed in the same way whatever has been reported. -/
theorem pass_reporting (n : Nat) (state : State) (reports : Diagnostics) :
    State.pass n (state.reporting reports) = (State.pass n state).reporting reports := by
  induction n generalizing state with
  | zero => rfl
  | succ n ih =>
    rw [State.pass, State.pass, show (state.reporting reports).rest = state.rest from rfl]
    split
    · rfl
    · next token rest _ =>
      exact ih { state with
        rest, position := state.position + 1, previousEnd := token.span.stop }

/-- So passing them keeps to the comparison. -/
theorem keeps_passOver (hl : c.Lawful) {n : Nat} :
    c.Keeps depth blocks (passOver n) (passOver n) := by
  intro state reports hat
  have hright : passOver n c.right (state.reporting reports) =
      .ok () ((State.pass n state).reporting reports) :=
    congrArg (EStateM.Result.ok ()) (pass_reporting n state reports)
  have hdepth : (State.pass n state).depth = state.depth := by rw [pass_eq]
  have hblocks : (State.pass n state).openBlocks = state.openBlocks := by rw [pass_eq]
  rw [hright]
  exact .ok ⟨hl.pass n hat.meets, hdepth.trans hat.depth, hblocks.trans hat.openBlocks⟩

/-- A diagnostic that is never suppressed keeps to it. -/
theorem keeps_push (hl : c.Lawful) {diagnostic : Diagnostic}
    (h : diagnostic.code ≠ .syntaxError ∨ diagnostic.message ∈ placementMessages) :
    c.Keeps depth blocks (push diagnostic) (push diagnostic) :=
  fun _ _ hat => .ok ⟨hl.push diagnostic hat.meets h, hat.depth, hat.openBlocks⟩

/-- A syntax error that may be suppressed keeps to it. -/
theorem keeps_failSyntax (hl : c.Lawful) {message : String} (h : message ∉ placementMessages) :
    c.Keeps depth blocks (failSyntax message : Parser α) (failSyntax message) :=
  .bind hl (hl.reportSyntax h) (fun _ => .throw) (fun _ => .throw) fun _ => .throw

/-- The span since a start is the same in both runs. -/
theorem keeps_spanFrom (hl : c.Lawful) {start : Span} :
    c.Keeps depth blocks (spanFrom start) (spanFrom start) :=
  .observe (fun context state =>
    ⟨context.source, start.start, max state.previousEnd start.start⟩) (fun _ _ => rfl)
    fun _ _ => by rw [hl.source]; rfl

/-- The same node is placed in both runs. -/
theorem keeps_place (hl : c.Lawful) {kind : NodeKind Placed} {span : Span} :
    c.Keeps depth blocks (place kind span) (place kind span) := by
  intro state reports hat
  unfold place
  rw [get_bind, get_bind, show (state.reporting reports).builder = state.builder from rfl]
  cases state.builder.push (kind.map Placed.id) span with
  | error fault => exact .error hat
  | ok pushed =>
    have halike : Alike state { state with builder := pushed.2 } := ⟨rfl, rfl, rfl, rfl, rfl, rfl⟩
    exact .ok ⟨hl.alike halike hat.meets, hat.depth, hat.openBlocks⟩

/-- So is a node that began earlier. -/
theorem keeps_placeFrom (hl : c.Lawful) {start : Span} {kind : NodeKind Placed} :
    c.Keeps depth blocks (placeFrom start kind) (placeFrom start kind) :=
  .bind hl (keeps_spanFrom hl) (fun _ => .place) (fun _ => .place) fun _ => keeps_place hl

/-- The type of an angle is changed in both runs. -/
theorem keeps_retagAngle (hl : c.Lawful) {node : Placed} :
    c.Keeps depth blocks (retagAngle node) (retagAngle node) := by
  unfold retagAngle
  split
  · refine .bind hl (.change hl ?_) (fun _ => .pure) (fun _ => .pure) fun _ => .pure
    exact turns_of_same (fun _ => ⟨rfl, rfl, rfl, rfl, rfl, rfl⟩) (fun _ _ => rfl) (fun _ => rfl)
      fun _ => rfl
  · exact .pure

/-- The same name is declared in both runs. -/
theorem keeps_declare (hl : c.Lawful) {name : Placed} :
    c.Keeps depth blocks (declare name) (declare name) := by
  refine .get (fun _ _ => rfl) fun state => ?_
  split
  · split
    · exact keeps_push hl (.inl nofun)
    · exact .change hl (turns_of_same (fun _ => ⟨rfl, rfl, rfl, rfl, rfl, rfl⟩) (fun _ _ => rfl)
        (fun _ => rfl) fun _ => rfl)
  · exact .pure

/-- The left parse may run out of levels where the right one has some left. -/
theorem keeps_nested (hl : c.Lawful) {parser other : Parser α} (hr : Reports other)
    (h : depth < c.left.options.maxDepth → c.Keeps (depth + 1) blocks parser other) :
    c.Keeps depth blocks (nested parser) (nested other) := by
  intro state reports hat
  by_cases hlt : depth < c.left.options.maxDepth
  · have hleft : state.depth < c.left.options.maxDepth := hat.depth ▸ hlt
    have hright : (state.reporting reports).depth < c.right.options.maxDepth :=
      Nat.lt_of_lt_of_le hleft hl.limits
    rw [nested_of_lt hleft, nested_of_lt hright]
    exact Keeps.deeper hl (h hlt) state reports hat
  · have hle : c.left.options.maxDepth ≤ depth := Nat.not_lt.1 hlt
    rw [nested_of_le (hat.depth ▸ hle)]
    exact hl.overflow hr hle state reports hat

/-! ## Productions -/

/-- What is composed of productions that keep two parses side by side does so. Where the left parse
has to stop, the statements of a block are read in an open block. -/
theorem Composed.keeps {has : Feature → Prop} {parser : Level → Parser α} (hc : Composed has parser)
    (hl : c.Lawful) (hr : ∀ production, Reports (inner production))
    (hr' : ∀ production, Reports (inner' production))
    (h : ∀ blocks production, (c.stops → production = .blockItems → 0 < blocks) →
      c.Keeps depth blocks (inner production) (inner' production)) :
    c.Keeps depth blocks (parser inner) (parser inner') := by
  induction hc generalizing blocks with
  | inner production hne => exact h blocks production fun _ heq => absurd heq hne.ne_blockItems
  | blockItems => exact .blockOpen hl (h (blocks + 1) .blockItems fun _ _ => Nat.succ_pos _)
  | pure => exact .pure
  | bind _ hn ih ihn =>
    exact .bind hl ih (fun value => (hn value).reports hr) (fun value => (hn value).reports hr')
      fun value => ihn value
  | looking _ ih => exact .looking hl fun view => ih view
  | iterate hc ih =>
    exact .iterate hl (fun value => (hc value).reports hr) (fun value => (hc value).reports hr')
      (fun value => ih value) _
  | blockOpen _ ih => exact .blockOpen hl ih
  | inScope _ _ ih => exact .inScope hl ih
  | failSyntax hm => exact keeps_failSyntax hl hm
  | passOver => exact keeps_passOver hl
  | report hm => exact keeps_push hl (.inr hm)
  | misread =>
    exact .bind hl (keeps_push hl (.inl nofun)) (fun _ => .place) (fun _ => .place)
      fun _ => keeps_place hl
  | overflows => exact .throw
  | place => exact keeps_place hl
  | retagAngle => exact keeps_retagAngle hl
  | declare => exact keeps_declare hl
  | setVersion =>
    exact .change hl (turns_of_same (fun _ => ⟨rfl, rfl, rfl, rfl, rfl, rfl⟩) (fun _ _ => rfl)
      (fun _ => rfl) fun _ => rfl)
  | requireVersion3 =>
    exact .get (fun _ _ => rfl) fun _ => .ite (keeps_push hl (.inl nofun)) .pure
  | deprecated =>
    exact .get (fun _ _ => rfl) fun _ => .ite .pure (keeps_push hl (.inl nofun))

/-! ## Recovery -/

/-- The recovery skips the same tokens in both runs. -/
theorem keeps_synchronize (hl : c.Lawful) {before opened : Nat} :
    c.Keeps depth blocks (synchronize before opened) (synchronize before opened) := by
  refine .get (fun _ _ => rfl) fun start => ?_
  refine .bind hl (keeps_passOver hl)
    (fun _ => .modify fun _ => rfl) (fun _ => .modify fun _ => rfl) fun _ => ?_
  exact fun _ _ hat => .ok ⟨hl.resync hat.meets, hat.depth, hat.openBlocks⟩

/-- What is done after a stop, if both have stopped. -/
theorem keeps_afterStop (hl : c.Lawful) {mark before : Nat} {start : Span} :
    c.Keeps depth blocks (afterStop mark before start) (afterStop mark before start) := by
  intro state reports hat
  let dropped : State := { state with builder := state.builder.truncate mark }
  have halike : Alike state dropped := ⟨rfl, rfl, rfl, rfl, rfl, rfl⟩
  have hdropped : c.At depth blocks dropped reports :=
    ⟨hl.alike halike hat.meets, hat.depth, hat.openBlocks⟩
  have hrest : c.Keeps depth blocks
      (synchronize before (state.unwinding.getD 0) >>= fun _ => placeFrom start .error)
      (synchronize before (state.unwinding.getD 0) >>= fun _ => placeFrom start .error) :=
    .bind hl (keeps_synchronize hl) (fun _ => .placeFrom) (fun _ => .placeFrom)
      fun _ => keeps_placeFrom hl
  unfold afterStop
  rw [modify_bind, modify_bind, get_bind, get_bind]
  by_cases hu : state.unwinding.isSome ∧ 0 < state.openBlocks
  · rw [if_pos hu, if_pos (show (state.reporting reports).unwinding.isSome ∧
      0 < (state.reporting reports).openBlocks from hu)]
    exact .error hdropped
  · rw [if_neg hu, if_neg (show ¬((state.reporting reports).unwinding.isSome ∧
      0 < (state.reporting reports).openBlocks) from hu)]
    exact hrest { dropped with unwinding := none } reports
      ⟨hl.settle hdropped.meets, hdropped.depth, hdropped.openBlocks⟩

/-- What is reported about a statement stays when an error takes its place. -/
theorem reported_statementOrError (inner : Level) (context : Context) (state : State) :
    Reported (ending (statement inner context state))
      (ending (statementOrError inner context state)) := by
  cases hresult : statement inner context state with
  | ok node after =>
    rw [statementOrError_ok hresult]
    exact .same rfl
  | error failure failed =>
    cases failure with
    | recovered =>
      rw [statementOrError_stop (currentSpan_eq context state) hresult]
      exact afterStop_reports context failed
    | crash failure =>
      rw [statementOrError_crash hresult]
      exact .same rfl

/-- Where the left parse has to stop, it does so within a block only. -/
theorem statementOrError_keeps (hl : c.Lawful) (hb : c.stops → 0 < blocks)
    (h : c.Keeps depth blocks (statement inner) (statement inner')) :
    c.Keeps depth blocks (statementOrError inner) (statementOrError inner') := by
  intro state reports hat
  have hspan : nextSpan c.right (state.reporting reports).rest = nextSpan c.left state.rest := by
    unfold nextSpan
    rw [hl.source, hl.text]
    rfl
  have hstatement := h state reports hat
  generalize hleft : statement inner c.left state = left at hstatement
  generalize hright : statement inner' c.right (state.reporting reports) = right at hstatement
  cases hstatement with
  | ok hafter =>
    rw [statementOrError_ok hleft, statementOrError_ok hright]
    exact .ok hafter
  | @error stop _ _ hfailed =>
    cases stop with
    | recovered =>
      rw [statementOrError_stop (currentSpan_eq _ _) hleft,
        statementOrError_stop (currentSpan_eq _ _) hright, hspan]
      exact keeps_afterStop hl _ _ hfailed
    | crash failure =>
      rw [statementOrError_crash hleft, statementOrError_crash hright]
      exact .error hfailed
  | part hparts hstops =>
    rw [← hleft, ← hright] at hparts
    have hparts := hl.parts_right (reported_statementOrError _ _ _) hparts
    by_cases hs : c.stops
    · obtain ⟨failed, rfl, hblocks⟩ := hstops hs
      rw [hleft] at hparts
      have hopen : failed.unwinding.isSome ∧ 0 < failed.openBlocks :=
        ⟨hl.parts_unwinding hs hparts, hblocks ▸ hb hs⟩
      have hunwinds : statementOrError inner c.left state = .error .recovered
          { failed with builder := failed.builder.truncate state.builder.size } := by
        rw [statementOrError_stop (currentSpan_eq _ _) hleft, afterStop, modify_bind, get_bind]
        exact congrFun (congrFun (if_pos hopen) _) _
      have halike : Alike failed
          { failed with builder := failed.builder.truncate state.builder.size } :=
        ⟨rfl, rfl, rfl, rfl, rfl, rfl⟩
      rw [hunwinds]
      exact .part (hl.parts_alike halike hparts) fun _ => ⟨_, rfl, hblocks⟩
    · exact .part (hl.parts_left hs (reported_statementOrError _ _ _) hparts) fun h => absurd h hs
  | halt hhalts =>
    rw [statementOrError_crash hright]
    exact .halt hhalts

/-- The items of a block keep to the comparison if each does. -/
theorem blockItems_keeps (hl : c.Lawful) (hr : Reports (statementOrError inner))
    (hr' : Reports (statementOrError inner'))
    (h : c.Keeps depth blocks (statementOrError inner) (statementOrError inner')) :
    c.Keeps depth blocks (blockItems inner) (blockItems inner') := by
  refine .iterate hl (blockRound_reports hr) (blockRound_reports hr') (fun items => ?_) []
  refine .peek fun next => ?_
  split
  · exact .pure
  · exact .pure
  · exact .bind hl h (fun _ => .pure) (fun _ => .pure) fun _ => .pure

/-! ## Levels -/

/-- The productions of all levels keep two parses side by side as long as the left one has levels
left; the right one may have more. -/
theorem level_keeps (hl : c.Lawful) {levels : Nat} (more : Nat) {production : Production}
    (hd : depth + levels = c.left.options.maxDepth + 1) (hle : depth ≤ c.left.options.maxDepth)
    (hb : c.stops → production = .blockItems → 0 < blocks) :
    c.Keeps depth blocks (level levels production) (level (levels + more) production) := by
  induction levels generalizing depth blocks production with
  | zero => omega
  | succ levels ih =>
    rw [Nat.add_right_comm]
    have hr := level_reports (levels + more)
    have hparse := parseWith_reports (item_reports (levels + more)) hr production
    rw [parseWith_plain] at hparse
    refine keeps_nested hl hparse fun hlt => ?_
    have hinner : ∀ blocks production, (c.stops → production = .blockItems → 0 < blocks) →
        c.Keeps (depth + 1) blocks (level levels production) (level (levels + more) production) :=
      fun blocks production hb => ih (by omega) (by omega) hb
    by_cases hitems : production = .blockItems
    · subst hitems
      refine .inScope hl (blockItems_keeps hl (item_reports _) (item_reports _) ?_)
      refine statementOrError_keeps hl (fun hs => hb hs rfl) ?_
      exact statement_composed.keeps hl (level_reports _) hr hinner
    · exact (parse_composed hitems).keeps hl (level_reports _) hr hinner

/-! ## Programs -/

/-- The items of a program keep to the comparison if each does. -/
theorem programItems_keeps (hl : c.Lawful) (hs : ¬c.stops) (hr : Reports (statementOrError inner))
    (hr' : Reports (statementOrError inner'))
    (h : c.Keeps depth blocks (statementOrError inner) (statementOrError inner')) :
    c.Keeps depth blocks (programItems inner) (programItems inner') := by
  refine .iterate hl (programRound_reports hr) (programRound_reports hr') (fun items => ?_) []
  refine .peek fun next => ?_
  split
  · exact .pure
  · have hnext : Reports (do
        advance
        return Turn.again items : Parser (Turn (List Placed) (List Placed))) :=
      .bind .passOver fun _ => .pure
    refine .bind hl (hl.reportSyntax (by decide)) (fun _ => hnext) (fun _ => hnext) fun _ => ?_
    exact .bind hl (keeps_passOver hl) (fun _ => .pure) (fun _ => .pure) fun _ => .pure
  · refine .bind hl (h.attempt hs) ?_ ?_ ?_ <;> rintro (- | node) <;> exact .pure

/-- A statement outside of all blocks, with the levels that each of the parses has. -/
theorem statement_keeps (hl : c.Lawful) :
    c.Keeps 0 0 (statement (level (c.left.options.maxDepth + 1)))
      (statement (level (c.right.options.maxDepth + 1))) := by
  obtain ⟨more, hmore⟩ := Nat.exists_eq_add_of_le hl.limits
  refine statement_composed.keeps hl (level_reports _) (level_reports _)
    fun blocks production hb => ?_
  rw [hmore, Nat.add_right_comm]
  exact level_keeps hl more (Nat.zero_add _) (Nat.zero_le _) hb

/-- Two parses of a program go on side by side if the left one need not stop. -/
theorem program_keeps (hl : c.Lawful) (hs : ¬c.stops) : c.Keeps 0 0 program program := by
  have hitems : c.Keeps 0 0 (programItems (level (c.left.options.maxDepth + 1)))
      (programItems (level (c.right.options.maxDepth + 1))) := by
    refine programItems_keeps hl hs (item_reports _) (item_reports _) ?_
    exact statementOrError_keeps hl (fun h => absurd h hs) (statement_keeps hl)
  intro state reports hat
  unfold program
  rw [read_bind, read_bind, hl.source, hl.text]
  refine Keeps.bind hl hitems (fun _ => .place) (fun _ => .place) (fun items => ?_) _ _ hat
  exact keeps_place hl

end

end OpenQasm.Grammar
