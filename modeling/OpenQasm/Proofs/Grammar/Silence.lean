import OpenQasm.Proofs.Grammar.Reporting
import OpenQasm.Proofs.Grammar.Watching
import OpenQasm.Proofs.Token.Faults
import OpenQasm.Proofs.Tree.Truncation

/-!
# Parses without errors

A syntax error is not reported if it follows from another one, stands at a token that is an error
itself, or comes while an overflow of the depth unwinds. In each case there is an error before it
that was reported. So as long as none of these errors is reported nothing is recovered from: the
parser does what the grammar does that has no recovery at all.
-/

namespace OpenQasm

/-- A node that is pushed comes after all others. -/
theorem Builder.nodes_of_push {builder pushed : Builder} {kind : NodeKind NodeId} {span : Span}
    {id : NodeId} (h : builder.push kind span = .ok (id, pushed)) :
    pushed.nodes = builder.nodes.push ⟨kind, span⟩ := by
  obtain ⟨parents, -, -, -, rfl⟩ := exists_adopted_of_push h
  rfl

/-- The id of a node that is pushed is the number of the nodes before it. -/
theorem Builder.id_of_push {builder pushed : Builder} {kind : NodeKind NodeId} {span : Span}
    {id : NodeId} (h : builder.push kind span = .ok (id, pushed)) : id = ⟨builder.nodes.size⟩ := by
  obtain ⟨parents, -, -, hid, -⟩ := exists_adopted_of_push h
  exact hid

/-- Codes among which are those of all failures that are recovered from. -/
class Code.Telling (alarms : Code → Prop) : Prop where
  lexicalError : alarms .lexicalError
  syntaxError : alarms .syntaxError
  maxDepthExceeded : alarms .maxDepthExceeded

/-- The codes of errors. -/
def Code.isError (code : Code) : Prop := code.severity = .error

instance : Code.Telling Code.isError := ⟨rfl, rfl, rfl⟩

namespace Grammar

/-! ## The grammar without recovery -/

/-- The reader that reads statements and puts nothing in place of those that fail. -/
def strictReader : Reader := fun _ inner => statement inner

/-- The statements of a program up to the end of the text. A closing brace begins none and is not
passed over: there is no program then. -/
def strictItems (item : Parser Placed) : Parser (List Placed) :=
  iterate
    (fun items => do
      match ← peek with
      | none => return .done items
      | some (.symbol .rightBrace) => recover
      | some _ => return .again (items ++ [← item]))
    []

/-- A whole program. Where a statement cannot be read, there is none. -/
def strictProgram : Parser Placed := do
  let context ← read
  let levels := context.options.maxDepth + 1
  let items ← strictItems (statement (levelWith strictReader levels))
  place (.program items) ⟨context.source, 0, min (Text.width context.text) maxOffset⟩

/-! ## States without alarms -/

/-- Something of the given codes has been reported. -/
def Alarmed (alarms : Code → Prop) (state : State) : Prop :=
  ∃ diagnostic ∈ state.diagnostics.items, alarms diagnostic.code

/-- Nothing has been recovered from, and no token ahead is an error. No node is one either, unless
tokens that spell nothing may be read without an alarm. -/
structure Quiet (alarms : Code → Prop) (state : State) : Prop where
  resync : state.resync = none
  unwinding : state.unwinding = none
  rest : ∀ token ∈ state.rest, token.kind ≠ .error
  nodes : alarms .literalError → ∀ node ∈ state.builder.nodes, node.kind ≠ .error

section
variable {α β : Type} {alarms : Code → Prop} {context : Context} {state after : State}
  {strict : Parser α}

/-- Once an error is reported it stays reported. -/
theorem Alarmed.reported (h : Alarmed alarms state) (hr : Reported state after) :
    Alarmed alarms after := by
  obtain ⟨diagnostic, hd, halarm⟩ := h
  exact ⟨diagnostic, hr.mem hd, halarm⟩

/-- A diagnostic with such a code is an error that is reported. -/
theorem alarmed_push {diagnostic : Diagnostic} (state : State) (h : alarms diagnostic.code) :
    Alarmed alarms { state with diagnostics := state.diagnostics.push diagnostic } :=
  ⟨diagnostic, List.mem_append_right _ List.mem_cons_self, h⟩

/-- A result without an alarm is what `strict` yields, and nothing was recovered from. -/
def Settles (alarms : Code → Prop) (strict : Parser α) (context : Context) (state : State) :
    EStateM.Result Stop State α → Prop
  | .ok value after =>
    Alarmed alarms after ∨ Quiet alarms after ∧ strict context state = .ok value after
  | .error .recovered after => Alarmed alarms after
  | .error (.crash _) _ => True

/-- Where an error was reported nothing is promised of the strict parser. -/
theorem Settles.of_alarmed {result : EStateM.Result Stop State α}
    (h : Alarmed alarms (ending result)) : Settles alarms strict context state result := by
  cases result with
  | ok value after => exact .inl h
  | error failure after =>
    cases failure with
    | recovered => exact h
    | crash => trivial

/-- A result settled by one strict parser is settled by any that answers wherever it does. -/
theorem Settles.mono {other : Parser α} {state' : State} {result : EStateM.Result Stop State α}
    (h : Settles alarms strict context state result)
    (ho : ∀ value after, strict context state = .ok value after →
      other context state' = .ok value after) : Settles alarms other context state' result := by
  cases result with
  | ok value after => exact h.imp_right fun ⟨hq, hstrict⟩ => ⟨hq, ho value after hstrict⟩
  | error failure after => cases failure <;> exact h

/-- As long as it raises no alarm, a parser does what another one does, and recovers from
nothing. -/
def Follows (alarms : Code → Prop) (context : Context) (parser strict : Parser α) : Prop :=
  ∀ state, Quiet alarms state → Settles alarms strict context state (parser context state)

namespace Follows

variable {parser strict : Parser α} {next next' : α → Parser β}

/-- Strict parsers follow in sequence. -/
theorem bind (h : Follows alarms context parser strict) (hr : ∀ value, Reports (next value))
    (hn : ∀ value, Follows alarms context (next value) (next' value)) :
    Follows alarms context (parser >>= next) (strict >>= next') := by
  intro state hq
  have hfirst := h state hq
  cases hresult : parser context state with
  | ok value middle =>
    rw [hresult] at hfirst
    rw [bind_of_ok hresult]
    rcases hfirst with halarm | ⟨hmiddle, hstrict⟩
    · exact .of_alarmed (halarm.reported (hr value context middle))
    · exact (hn value middle hmiddle).mono fun _ _ hlast => (bind_of_ok hstrict).trans hlast
  | error failure middle =>
    rw [hresult] at hfirst
    rw [bind_of_error hresult]
    cases failure <;> exact hfirst

/-- An answer follows itself. -/
theorem pure {value : α} : Follows alarms context (pure value) (pure value) :=
  fun _ hq => .inr ⟨hq, rfl⟩

/-- A crash is followed by any parser: nothing is promised behind it. -/
theorem crash {failure : Crash} : Follows alarms context (crash failure : Parser α) strict :=
  fun _ _ => trivial

/-- What is seen is the same for both. -/
theorem look {parser : Parser α} {next next' : α → Parser β} (value : State → α)
    (hv : ∀ state, parser context state = .ok (value state) state)
    (h : ∀ value, Follows alarms context (next value) (next' value)) :
    Follows alarms context (parser >>= next) (parser >>= next') := by
  intro state hq
  rw [bind_of_ok (hv state)]
  exact (h _ state hq).mono fun _ _ hnext => (bind_of_ok (hv state)).trans hnext

/-- A strict parser follows between two changes that are quiet and report nothing. -/
theorem around {enter leave : State → State} (h : Follows alarms context parser strict)
    (he : ∀ state, Quiet alarms state → Quiet alarms (enter state))
    (hl : ∀ state, Quiet alarms state → Quiet alarms (leave state))
    (hr : ∀ state, (leave state).diagnostics = state.diagnostics) :
    Follows alarms context (around enter leave parser) (around enter leave strict) := by
  intro state hq
  have hinside := h (enter state) (he state hq)
  unfold Grammar.around
  cases hresult : parser context (enter state) with
  | ok value middle =>
    rw [hresult] at hinside
    rcases hinside with halarm | ⟨hmiddle, hstrict⟩
    · exact .inl (halarm.reported (.same (hr middle)))
    · exact .inr ⟨hl middle hmiddle, by simp only [hstrict]⟩
  | error failure middle =>
    rw [hresult] at hinside
    cases failure with
    | recovered => exact Alarmed.reported hinside (.same (hr middle))
    | crash => trivial

/-- A loop follows a loop if its rounds follow and report only more. -/
theorem iterate {round round' : α → Parser (Turn α β)} (hr : ∀ value, Reports (round value))
    (h : ∀ value, Follows alarms context (round value) (round' value)) (value : α) :
    Follows alarms context (iterate round value) (iterate round' value) := by
  refine .look (fun state => state) (fun _ => rfl) fun start => ?_
  generalize start.rest = tokens
  induction tokens generalizing value with
  | nil =>
    refine .bind (h value) (fun turn => ?_) fun turn => ?_
    · cases turn with
      | done result => exact .pure
      | again value => exact .throw
    · cases turn with
      | done result => exact .pure
      | again value => exact .crash
  | cons token tokens ih =>
    refine .bind (h value) (fun turn => ?_) fun turn => ?_
    · cases turn with
      | done result => exact .pure
      | again value => exact Reports.iterateAlong hr tokens value
    · cases turn with
      | done result => exact .pure
      | again value => exact ih value

/-- A choice follows a choice on the same condition if both sides do. -/
theorem ite {c : Prop} [Decidable c] {yes no yes' no' : Parser α}
    (hy : Follows alarms context yes yes') (hn : Follows alarms context no no') :
    Follows alarms context (if c then yes else no) (if c then yes' else no') := by
  split
  · exact hy
  · exact hn

/-- A change that keeps a state quiet follows itself. -/
theorem modify {change : State → State}
    (h : ∀ state, Quiet alarms state → Quiet alarms (change state)) :
    Follows alarms context (modify change : Parser Unit) (modify change) :=
  fun state hq => .inr ⟨h state hq, rfl⟩

/-- So does a diagnostic that is added: it is an error, or the state stays quiet. -/
theorem push {diagnostic : Diagnostic} :
    Follows alarms context (push diagnostic) (push diagnostic) :=
  .modify fun _ hq => { hq with }

end Follows

/-! ## Pieces -/

/-- An alarm stays raised whatever comes next. -/
theorem alarmed_bind {parser : Parser α} {next : α → Parser β}
    (h : Alarmed alarms (ending (parser context state))) (hr : ∀ value, Reports (next value)) :
    Alarmed alarms (ending ((parser >>= next) context state)) :=
  h.reported (Reports.behind hr context state)

/-- Passing tokens over follows itself. -/
theorem follows_passOver {n : Nat} : Follows alarms context (passOver n) (passOver n) := by
  refine .modify fun state hq => ?_
  induction n generalizing state with
  | zero => exact hq
  | succ n ih =>
    rw [State.pass]
    split
    · exact hq
    · next token rest hrest =>
      refine ih _ { hq with rest := fun token' hm => ?_ }
      exact hq.rest token' (hrest ▸ List.mem_cons_of_mem _ hm)

/-- An error is placed for a token that spells nothing only. -/
theorem follows_place {kind : NodeKind Placed} {span : Span}
    (h : alarms .literalError → kind ≠ .error) :
    Follows alarms context (place kind span) (place kind span) := by
  have hkind (ha : alarms .literalError) : kind.map Placed.id ≠ .error := by
    have := h ha
    cases kind <;> first | exact absurd rfl this | exact nofun
  intro state hq
  unfold place
  rw [get_bind]
  cases hpush : state.builder.push (kind.map Placed.id) span with
  | error fault => trivial
  | ok pushed =>
    refine .inr ⟨{ hq with nodes := fun ha node hm => ?_ }, ?_⟩
    · rw [Builder.nodes_of_push hpush] at hm
      rcases Array.mem_push.1 hm with hm | rfl
      · exact hq.nodes ha node hm
      · exact hkind ha
    · rw [get_bind, hpush]
      rfl

/-- The report that a number cannot be read follows itself. -/
theorem follows_misread {span : Span} {message : String} :
    Follows alarms context (misread span message) (misread span message) := by
  by_cases ha : alarms .literalError
  · have hreport (state : State) :
        Alarmed alarms (ending (report .literalError span message context state)) :=
      alarmed_push state ha
    exact fun state _ => .of_alarmed (alarmed_bind (hreport state) fun _ => .place)
  · exact .bind .push (fun _ => .place) fun _ => follows_place fun h => absurd h ha

/-- So does the change of the type of an angle. -/
theorem follows_retagAngle {node : Placed} :
    Follows alarms context (retagAngle node) (retagAngle node) := by
  unfold retagAngle
  split
  · refine .bind (.modify fun state hq => { hq with nodes := fun ha other hm => ?_ })
      (fun _ => .pure) fun _ => .pure
    obtain ⟨index, hindex⟩ := Array.mem_iff_getElem?.1 hm
    rw [Builder.setKind, Array.getElem?_modify] at hindex
    split at hindex
    · obtain ⟨before, -, rfl⟩ := Option.map_eq_some_iff.1 hindex
      intro heq
      cases heq
    · exact hq.nodes ha other (Array.mem_of_getElem? hindex)
  · exact .pure

/-- So does a name that is declared, twice or not. -/
theorem follows_declare {name : Placed} :
    Follows alarms context (declare name) (declare name) := by
  refine .look (fun state => state) (fun _ => rfl) fun state => ?_
  split
  · split
    · exact .push
    · exact .modify fun _ hq => { hq with }
  · exact .pure

/-- So does a note about the version. -/
theorem follows_requireVersion3 {span : Span} {feature : String} :
    Follows alarms context (requireVersion3 span feature) (requireVersion3 span feature) :=
  .look (fun state => state) (fun _ => rfl) fun _ => .ite .push .pure

/-- So does a warning about a deprecated form. -/
theorem follows_deprecated {span : Span} {feature : String} {fix : Option Fix} :
    Follows alarms context (deprecated span feature fix) (deprecated span feature fix) :=
  .look (fun state => state) (fun _ => rfl) fun _ => .ite .pure .push

/-- A failure that is caught was reported, so the strict parser need not catch any. -/
theorem attempt_follows {parser strict : Parser α} {other : Parser (Option α)}
    (h : Follows alarms context parser strict)
    (ho : ∀ state value after, strict context state = .ok value after →
      other context state = .ok (some value) after) :
    Follows alarms context (attempt parser) other := by
  intro state hq
  have hinside := h state hq
  unfold attempt
  cases hresult : parser context state with
  | ok value after =>
    rw [hresult] at hinside
    exact hinside.imp_right fun ⟨hafter, hstrict⟩ => ⟨hafter, ho state value after hstrict⟩
  | error failure after =>
    rw [hresult] at hinside
    cases failure with
    | recovered => exact .inl hinside
    | crash => trivial

/-- The items of a block follow if each item does. -/
theorem blockItemsWith_follows {item item' : Parser Placed} (hr : Reports item)
    (h : Follows alarms context item item') :
    Follows alarms context (blockItemsWith item) (blockItemsWith item') := by
  refine .iterate ?_ (fun items => ?_) []
  · exact blockRound_reports hr
  · refine .look (·.rest.head?.map Token.kind) (fun _ => rfl) fun next => ?_
    split
    · exact .pure
    · exact .pure
    · exact .bind h (fun _ => .pure) fun _ => .pure

/-! ## Failures -/

variable [telling : Code.Telling alarms]

/-- A syntax error is reported if nothing has been recovered from and no error is ahead. -/
theorem Quiet.reportSyntax (hq : Quiet alarms state) (context : Context) (message : String) :
    Alarmed alarms (ending (reportSyntax message context state)) := by
  have hsuppressed : isSuppressed context state = .ok false state := by
    unfold isSuppressed
    rw [get_bind, read_bind, hq.resync]
    rfl
  have hseen : sees .error context state = .ok false state := by
    have hstart : startsWith .error state.rest = false := by
      cases hrest : state.rest with
      | nil => rfl
      | cons token rest =>
        have := hq.rest token (hrest ▸ List.mem_cons_self)
        simpa [startsWith] using this
    unfold sees
    rw [get_bind, hstart]
    rfl
  obtain ⟨span, hspan⟩ := currentSpan_ok context state
  unfold Grammar.reportSyntax
  rw [bind_of_ok hsuppressed, bind_of_ok hseen]
  show Alarmed alarms (ending ((currentSpan >>= fun span => report .syntaxError span message)
    context state))
  rw [bind_of_ok hspan]
  exact alarmed_push state telling.syntaxError

/-- A syntax error is reported, or it is suppressed and an error was reported before it. -/
theorem follows_failSyntax {message : String} :
    Follows alarms context (failSyntax message : Parser α) (failSyntax message) := fun _ hq =>
  .of_alarmed (alarmed_bind (hq.reportSyntax context message) fun _ => .throw)

/-- An overflow is reported unless one unwinds. -/
theorem follows_overflow : Follows alarms context (overflow : Parser α) overflow := by
  intro state hq
  obtain ⟨span, hspan⟩ := currentSpan_ok context state
  refine .of_alarmed ?_
  unfold overflow
  rw [get_bind, read_bind, hq.unwinding]
  show Alarmed alarms (ending ((currentSpan >>= _) context state))
  rw [bind_of_ok hspan]
  exact alarmed_bind (alarmed_push state telling.maxDepthExceeded) fun _ =>
    .bind (.modify fun _ => rfl) fun _ => .throw

/-- A syntax error that is not subject to the window is reported. -/
theorem follows_report {span : Span} {message : String} :
    Follows alarms context (report .syntaxError span message) (report .syntaxError span message) :=
  fun state _ => .inl (alarmed_push state telling.syntaxError)

/-- The limit of the depth is reported where it is met. -/
theorem follows_nested {parser strict : Parser α} (h : Follows alarms context parser strict) :
    Follows alarms context (nested parser) (nested strict) := by
  refine .look (fun _ => context) (fun _ => rfl) fun context => ?_
  refine .look (fun state => state) (fun _ => rfl) fun state => .ite follows_overflow ?_
  exact h.around (fun _ hq => { hq with }) (fun _ hq => { hq with }) fun _ => rfl

/-! ## Productions -/

variable {inner inner' : Level}

/-- Every parser that is composed of the pieces follows, if the levels below do. -/
theorem Composed.follows {has : Feature → Prop} {parser : Level → Parser α}
    (hc : Composed has parser)
    (hr : ∀ production, Reports (inner production))
    (h : ∀ production, Follows alarms context (inner production) (inner' production)) :
    Follows alarms context (parser inner) (parser inner') := by
  induction hc with
  | inner production => exact h production
  | blockItems =>
    exact (h .blockItems).around (fun _ hq => { hq with }) (fun _ hq => { hq with }) fun _ => rfl
  | pure => exact .pure
  | bind _ hn ih ihn => exact .bind ih (fun value => (hn value).reports hr) ihn
  | looking _ ih => exact fun state hq => ih (state.view context) state hq
  | iterate hc ih => exact .iterate (fun value => (hc value).reports hr) ih _
  | blockOpen _ ih | inScope _ _ ih =>
    exact ih.around (fun _ hq => { hq with }) (fun _ hq => { hq with }) fun _ => rfl
  | failSyntax => exact follows_failSyntax
  | passOver => exact follows_passOver
  | report => exact follows_report
  | misread => exact follows_misread
  | overflows => exact .crash
  | place h => exact follows_place fun _ => h.ne_error
  | retagAngle => exact follows_retagAngle
  | declare => exact follows_declare
  | setVersion => exact .modify fun _ hq => { hq with }
  | requireVersion3 => exact follows_requireVersion3
  | deprecated => exact follows_deprecated

/-- A statement or an error in its place, or the statement: if no alarm is raised, the statement is
read. -/
theorem statementOrError_follows {item : Parser Placed}
    (hr : ∀ production, Reports (inner production))
    (h : ∀ production, Follows alarms context (inner production) (inner' production))
    (hi : ∀ state node after, statement inner' context state = .ok node after →
      item context state = .ok node after) :
    Follows alarms context (statementOrError inner) item := by
  intro state hq
  have hstatement := statement_composed.follows hr h state hq
  cases hresult : statement inner context state with
  | ok node after =>
    rw [hresult] at hstatement
    rw [statementOrError_ok hresult]
    exact Settles.mono hstatement (hi state)
  | error failure failed =>
    rw [hresult] at hstatement
    cases failure with
    | recovered =>
      obtain ⟨start, hspan⟩ := currentSpan_ok context state
      rw [statementOrError_stop hspan hresult]
      exact .of_alarmed (Alarmed.reported hstatement (afterStop_reports context failed))
    | crash =>
      rw [statementOrError_crash hresult]
      trivial

/-- A reader that yields every statement that is read. -/
def Faithful (context : Context) (reader : Reader) : Prop :=
  ∀ levels state node after, statement (levelWith reader levels) context state = .ok node after →
    reader levels (levelWith reader levels) context state = .ok node after

section
variable {reader : Reader}

/-- With any reader that yields the statements that are read, the productions of all levels do the
same as long as no alarm is raised. -/
theorem level_follows (hf : Faithful context reader) (levels : Nat) (production : Production) :
    Follows alarms context (level levels production) (levelWith reader levels production) := by
  rw [← levelWith_plain]
  induction levels generalizing production with
  | zero => exact .crash
  | succ levels ih =>
    have hr := levelWith_reports plainReader_reports levels
    refine follows_nested ?_
    by_cases hitems : production = .blockItems
    · subst hitems
      refine Follows.around (blockItemsWith_follows (plainReader_reports levels _ hr) ?_)
        (fun _ hq => { hq with }) (fun _ hq => { hq with }) fun _ => rfl
      exact statementOrError_follows hr ih (hf levels)
    · rw [parseWith_of_ne hitems, parseWith_of_ne hitems]
      exact (parse_composed hitems).follows hr ih

/-- The statements of a program and how they are read. -/
theorem item_follows (hf : Faithful context reader) (levels : Nat) :
    Follows alarms context (statementOrError (level levels))
      (reader levels (levelWith reader levels)) :=
  statementOrError_follows (level_reports levels) (level_follows hf levels) (hf levels)

/-- A stray closing brace is reported. -/
theorem stray_follows {strict : Parser α} {next : Unit → Parser α} {message : String}
    (hr : ∀ value, Reports (next value)) :
    Follows alarms context (reportSyntax message >>= next) strict :=
  fun _ hq => .of_alarmed (alarmed_bind (hq.reportSyntax context message) hr)

/-- The items of a program follow if each item does. -/
theorem programItemsWith_follows {item item' : Parser Placed} (hr : Reports item)
    (h : Follows alarms context item item') :
    Follows alarms context (programItemsWith item) (programItemsWith item') := by
  refine .iterate ?_ (fun items => ?_) []
  · exact programRound_reports hr
  · refine .look (·.rest.head?.map Token.kind) (fun _ => rfl) fun next => ?_
    split
    · exact .pure
    · exact stray_follows fun _ => .bind .passOver fun _ => .pure
    · refine .bind (attempt_follows h fun _ _ _ hread => ?_) (fun node => ?_) fun node => ?_
      · simp only [attempt, hread]
      · cases node <;> exact .pure
      · cases node <;> exact .pure

/-- How a program goes on after a statement that may not have been read. -/
def goOn (items : List Placed) : Option Placed → Parser (Turn (List Placed) (List Placed))
  | some node => return .again (items ++ [node])
  | none => return .again items

/-- Where no alarm is raised, the items of a program are the strict ones. -/
theorem strictItems_follows {item item' : Parser Placed} (hr : Reports item)
    (h : Follows alarms context item item') :
    Follows alarms context (programItemsWith item) (strictItems item') := by
  refine .iterate ?_ (fun items => ?_) []
  · exact programRound_reports hr
  refine .look (·.rest.head?.map Token.kind) (fun _ => rfl) fun next => ?_
  have hstrict : (do return Turn.again (items ++ [← item'])) =
      some <$> item' >>= goOn items := (bind_map_left some item' (goOn items)).symm
  rw [hstrict]
  rcases next with - | kind
  · exact .pure
  by_cases hstray : kind = .symbol .rightBrace
  · subst hstray
    exact stray_follows fun _ => .bind .passOver fun _ => .pure
  · simp only
    refine .bind (attempt_follows h fun _ _ _ hread => ?_) (fun node => ?_) fun node => ?_
    · rw [map_eq_pure_bind, bind_of_ok hread]
      rfl
    · cases node <;> exact .pure
    · cases node <;> exact .pure

/-! ## Programs -/

/-- A whole program follows over a reader that is faithful. -/
theorem program_follows (hf : Faithful context reader) :
    Follows alarms context program (programWith reader) := by
  refine .look (fun _ => context) (fun _ => rfl) fun context => ?_
  exact .bind (programItemsWith_follows (item_reports _) (item_follows hf _)) (fun _ => .place)
    fun items => follows_place fun _ => nofun

/-- As long as no alarm is raised, a program is read as it is without recovery. -/
theorem strictProgram_follows (context : Context) :
    Follows alarms context program strictProgram := by
  have hf : Faithful context strictReader := fun _ _ _ _ h => h
  refine .look (fun _ => context) (fun _ => rfl) fun context => ?_
  exact .bind (strictItems_follows (item_reports _) (item_follows hf _)) (fun _ => .place)
    fun items => follows_place fun _ => nofun

/-- The statements that are not read. -/
def failing (context : Context) : Watch := fun levels call =>
  ∀ node after, statement (level levels) context call ≠ .ok node after

/-- The reader that fails where the parser would recover is faithful. -/
theorem faithful_failing (context : Context) :
    Faithful context (watching (failing context)) := by
  intro levels state node after h
  have hplain : statement (level levels) context state = .ok node after := by
    rcases (statement_heeds (levelWith_heeds levels)).same_or_stops context (failing context) state
      with hsame | ⟨_, hstop⟩
    · rw [levelWith_nothing] at hsame
      exact hsame.symm.trans h
    · cases h.symm.trans hstop
  rw [watching_of_not fun hfailing => hfailing node after hplain]
  exact statementOrError_ok h

end

end

/-! ## Parses -/

section
variable {source : SourceId} {text : List Char} {options : ParseOptions} {output : ParseOutput}

/-- What a parse yields comes from the state in which the program ends. -/
theorem exists_of_parse_ok (h : parse source text options = .ok output) :
    ∃ root state,
      program ⟨source, text, options⟩ (startState source text options) = .ok root state ∧
      output.tree.nodes = state.builder.nodes ∧ output.tree.root = root.id ∧
      output.diagnostics =
        Diagnostics.sorted ⟨(tokenize source text).2 ++ state.diagnostics.items⟩ := by
  rw [parse_eq] at h
  split at h
  · next root state hprogram =>
    split at h
    · next tree hfinish =>
      obtain rfl := Except.ok.inj h
      unfold Builder.finish at hfinish
      split at hfinish
      · obtain rfl := Except.ok.inj hfinish
        exact ⟨root, state, hprogram, rfl, rfl, rfl⟩
      · cases hfinish
    · cases h
  · cases h
  · cases h

/-- A parse that has recovered from nothing: none of its nodes is an error, every statement that it
begins is read, and it has done what the grammar without recovery does. -/
structure Unrecovered (source : SourceId) (text : List Char) (options : ParseOptions)
    (output : ParseOutput) : Prop where
  nodes : ∀ id node, output.tree.node? id = some node → node.kind ≠ .error
  begun : ∀ levels call, Begins source text options levels call →
    ∃ node after, statement (level levels) ⟨source, text, options⟩ call = .ok node after
  strict : ∃ root state,
    program ⟨source, text, options⟩ (startState source text options) = .ok root state ∧
    strictProgram ⟨source, text, options⟩ (startState source text options) = .ok root state ∧
    state.resync = none ∧ output.tree.nodes = state.builder.nodes ∧ output.tree.root = root.id

variable {alarms : Code → Prop}

/-- Nothing of the given codes is reported, neither about the tokens nor about what they make up. -/
def Unalarmed (alarms : Code → Prop) (source : SourceId) (text : List Char)
    (state : State) : Prop :=
  (∀ diagnostic ∈ (tokenize source text).2, ¬alarms diagnostic.code) ∧ ¬Alarmed alarms state

/-- What is not shown has not been reported. -/
theorem unalarmed_of_shown {state : State} (hreports : output.diagnostics =
      Diagnostics.sorted ⟨(tokenize source text).2 ++ state.diagnostics.items⟩)
    (h : ∀ diagnostic ∈ output.diagnostics, ¬alarms diagnostic.code) :
    Unalarmed alarms source text state := by
  have hnone : ∀ diagnostic ∈ (tokenize source text).2 ++ state.diagnostics.items,
      ¬alarms diagnostic.code := fun diagnostic hd ha => by
    let reported : Diagnostics := ⟨(tokenize source text).2 ++ state.diagnostics.items⟩
    obtain ⟨other, ho, heq⟩ : ∃ other ∈ reported.sorted, other.identity = diagnostic.identity :=
      Diagnostics.exists_mem_sorted hd
    refine h other (hreports ▸ ho) ?_
    rwa [(Diagnostic.identity_eq_iff.1 heq).1]
  exact ⟨fun diagnostic hd => hnone diagnostic (List.mem_append_left _ hd),
    fun ⟨diagnostic, hd, ha⟩ => hnone diagnostic (List.mem_append_right _ hd) ha⟩

variable [telling : Code.Telling alarms]

/-- Before the first token nothing is reported but what the lexer has. -/
theorem quiet_startState (options : ParseOptions)
    (h : ∀ diagnostic ∈ (tokenize source text).2, ¬alarms diagnostic.code) :
    Quiet alarms (startState source text options) where
  resync := rfl
  unwinding := rfl
  rest := fun token hm hk => by
    obtain ⟨hspans, hcodes⟩ := tokenize_faults source text
    have hfault : token.span ∈ (tokenize source text).2.map Diagnostic.span := by
      rw [hspans]
      exact List.mem_map_of_mem (List.mem_filter.2 ⟨(List.mem_filter.1 hm).1, by simpa using hk⟩)
    obtain ⟨diagnostic, hd, -⟩ := List.mem_map.1 hfault
    exact h diagnostic hd ((hcodes diagnostic hd).1 ▸ telling.lexicalError)
  nodes := fun _ _ hm => nomatch hm

/-- A program that raises no alarm is read as it is without recovery. -/
theorem Unalarmed.strict {root : Placed} {state : State} (h : Unalarmed alarms source text state)
    (hprogram : program ⟨source, text, options⟩ (startState source text options) = .ok root state) :
    Quiet alarms state ∧
      strictProgram ⟨source, text, options⟩ (startState source text options) = .ok root state := by
  have hstrict := strictProgram_follows ⟨source, text, options⟩ _ (quiet_startState options h.1)
  rw [hprogram] at hstrict
  exact hstrict.resolve_left h.2

/-- Every report has the severity of its code. -/
theorem severity_of_report {root : Placed} {state : State} {diagnostic : Diagnostic}
    (hprogram : program ⟨source, text, options⟩ (startState source text options) = .ok root state)
    (hd : diagnostic ∈ (tokenize source text).2 ++ state.diagnostics.items) :
    diagnostic.severity = diagnostic.code.severity := by
  have hreported := programWith_reports plainReader_reports ⟨source, text, options⟩
    (startState source text options)
  rw [programWith_plain, hprogram] at hreported
  rcases List.mem_append.1 hd with hd | hd
  · obtain ⟨hcode, hsevere⟩ := (tokenize_faults source text).2 diagnostic hd
    rw [hcode, hsevere]
    rfl
  · obtain ⟨more, hmore, hcodes⟩ := hreported
    exact hcodes diagnostic (by rwa [show state.diagnostics.items = more from hmore] at hd)

/-- No failure is silent: a parse that reports no error has recovered from nothing. -/
theorem parse_silent (source : SourceId) (text : List Char) (options : ParseOptions) :
    (∃ output, parse source text options = .ok output ∧
      (output.hasErrors = true ∨ Unrecovered source text options output)) ∨
    Crashes source text options := by
  refine (parse_completes source text options).imp_left ?_
  rintro ⟨-, -, output, -, hparse, -⟩
  refine ⟨output, hparse, ?_⟩
  obtain ⟨root, state, hprogram, hnodes, hroot, hreports⟩ := exists_of_parse_ok hparse
  by_cases herror : ∃ diagnostic ∈ output.diagnostics, diagnostic.code.isError
  · obtain ⟨diagnostic, hd, he⟩ := herror
    let reported : Diagnostics := ⟨(tokenize source text).2 ++ state.diagnostics.items⟩
    have hd' : diagnostic ∈ reported.items := Diagnostics.mem_of_mem_sorted (hreports ▸ hd)
    have hsevere := severity_of_report hprogram hd'
    refine .inl (List.any_eq_true.2 ⟨diagnostic, hd, ?_⟩)
    rw [Diagnostic.isError, hsevere, show diagnostic.code.severity = .error from he]
    rfl
  -- No error was reported, neither about the tokens nor about what they make up.
  have hsilent : Unalarmed Code.isError source text state :=
    unalarmed_of_shown hreports fun diagnostic hd he => herror ⟨diagnostic, hd, he⟩
  obtain ⟨hquiet, hstrict⟩ := hsilent.strict hprogram
  have hwatched := program_follows (faithful_failing ⟨source, text, options⟩) _
    (quiet_startState options hsilent.1)
  rw [hprogram] at hwatched
  obtain ⟨-, hwatched⟩ := hwatched.resolve_left hsilent.2
  refine .inr ⟨fun id node hn => ?_, fun levels call hbegins => ?_,
    root, state, hprogram, hstrict, hquiet.resync, hnodes, hroot⟩
  · rw [Tree.node?, hnodes] at hn
    exact hquiet.nodes rfl node (Array.mem_of_getElem? hn)
  · refine Classical.byContradiction fun hfails => ?_
    have hfailing : failing ⟨source, text, options⟩ levels call := fun node after hread =>
      hfails ⟨node, after, hread⟩
    obtain ⟨after, hafter⟩ := hbegins.stops (.of_watch hfailing)
    cases hafter.symm.trans hwatched

end

end Grammar

end OpenQasm
