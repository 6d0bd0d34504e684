import OpenQasm.Proofs.Grammar.Comparison
import OpenQasm.Proofs.Grammar.Silence
import OpenQasm.Settings.Basic

/-!
# What is met with during a parse

A parse meets with the same errors whatever the window: each at a number of tokens read, some number
of tokens behind the last recovery. The window decides which of them are reported. The sum of the
place of a recovery and the window has to be a machine number when an error is met with; nothing
keeps a valid window so small, and a parse that meets with an error where the sum is none comes to
no end.
-/

namespace OpenQasm.Grammar

/-! ## Events -/

/-- What may be reported about during a parse. -/
inductive Event where
  /-- A report that does not depend on the last recovery. -/
  | said (diagnostic : Diagnostic)
  /-- A syntax error behind so many tokens, with the number of tokens read at the last recovery, and
  what is to be reported unless the token has been reported as an error itself. -/
  | erred (resync : Option Nat) (position : Nat) (report : Option Diagnostic)

namespace Event

/-- What is reported about an event. A syntax error is suppressed if fewer tokens than the window
lie between the last recovery and the error. -/
def shown (window : Nat) : Event → List Diagnostic
  | said diagnostic => [diagnostic]
  | erred resync position report =>
    if ∃ start ∈ resync, position - start < window then [] else report.toList

/-- Whether the end of the window behind the last recovery is no machine number. -/
def Overflows (window : Nat) : Event → Prop
  | said _ => False
  | erred resync _ _ => ∃ start ∈ resync, Text.wordBound ≤ start + window

/-- Syntax errors but for misplaced statements depend on the last recovery. That is not behind the
error, and the error is reported at the token ahead. -/
def Sound (context : Context) (tokens : List Token) : Event → Prop
  | said diagnostic =>
    diagnostic.code ≠ .syntaxError ∨ diagnostic.message ∈ placementMessages
  | erred resync position report =>
    (∀ start ∈ resync, start ≤ position) ∧ position ≤ tokens.length ∧
      (report = none ↔ startsWith .error (tokens.drop position) = true) ∧
      ∀ diagnostic ∈ report, ∃ message,
        diagnostic = syntaxReport context (tokens.drop position) message

end Event

/-! ## Parsers -/

/-- The same options but for the window. -/
def Context.within (context : Context) (window : Nat) : Context :=
  { context with options := { context.options with suppressionWindow := window } }

section
variable {α β : Type}

/-- The same end of a parser with other reports. -/
def reportingEnd (reports : Diagnostics) : EStateM.Result Stop State α → EStateM.Result Stop State α
  | .ok value state => .ok value (state.reporting reports)
  | .error stop state => .error stop (state.reporting reports)

/-- Whatever the window and whatever has been reported before, a parser started in the state meets
with these events. It comes to this end and reports what is shown of the events, unless an event
overflows. -/
structure Encounters (context : Context) (tokens : List Token) (parser : Parser α) (state : State)
    (events : List Event) (outcome : EStateM.Result Stop State α) : Prop where
  sound : ∀ event ∈ events, event.Sound context tokens
  abreast : Abreast tokens (ending outcome)
  ends : ∀ after, outcome ≠ .error (.crash .countOverflow) after
  comes : ∀ window reports, (∀ event ∈ events, ¬event.Overflows window) →
    parser (context.within window) (state.reporting reports) =
      reportingEnd (reports.append (events.flatMap (Event.shown window))) outcome
  crashes : ∀ window reports, (∃ event ∈ events, event.Overflows window) →
    ∃ after, parser (context.within window) (state.reporting reports) =
      .error (.crash .countOverflow) after

/-- What a parser meets with does not depend on the window. -/
def Tells (context : Context) (tokens : List Token) (parser : Parser α) : Prop :=
  ∀ state, Abreast tokens state → ∃ events outcome,
    Encounters context tokens parser state events outcome

variable {context : Context} {tokens : List Token} {parser : Parser α} {next : α → Parser β}
  {state : State} {outcome : EStateM.Result Stop State α}

/-- No diagnostics added, nothing changed. -/
theorem append_nil_eq (reports : Diagnostics) : reports.append [] = reports := by
  rw [Diagnostics.append, List.append_nil]

/-- A parser that meets with nothing. -/
theorem Encounters.none (ha : Abreast tokens (ending outcome))
    (he : ∀ after, outcome ≠ .error (.crash .countOverflow) after)
    (h : ∀ window reports, parser (context.within window) (state.reporting reports) =
      reportingEnd reports outcome) : Encounters context tokens parser state [] outcome where
  sound _ hm := nomatch hm
  abreast := ha
  ends := he
  comes window reports _ := by rw [h, List.flatMap_nil, append_nil_eq]
  crashes _ _ := fun ⟨_, hm, _⟩ => nomatch hm

/-- A parser that reports one thing, whatever the window. -/
theorem Encounters.push {diagnostic : Diagnostic} (ha : Abreast tokens (ending outcome))
    (he : ∀ after, outcome ≠ .error (.crash .countOverflow) after)
    (hd : diagnostic.code ≠ .syntaxError ∨ diagnostic.message ∈ placementMessages)
    (h : ∀ window reports, parser (context.within window) (state.reporting reports) =
      reportingEnd (reports.push diagnostic) outcome) :
    Encounters context tokens parser state [.said diagnostic] outcome where
  sound _ hm := List.mem_singleton.1 hm ▸ hd
  abreast := ha
  ends := he
  comes window reports _ := h window reports
  crashes _ _ := fun ⟨_, hm, ho⟩ =>
    (List.mem_singleton.1 hm ▸ ho : Event.Overflows _ (.said _)).elim

/-- What a parser meets with that does what another one does in another state. -/
theorem Encounters.congr {other : Parser α} {start : State} {events : List Event}
    (h : Encounters context tokens other start events outcome)
    (heq : ∀ window reports, parser (context.within window) (state.reporting reports) =
      other (context.within window) (start.reporting reports)) :
    Encounters context tokens parser state events outcome where
  sound := h.sound
  abreast := h.abreast
  ends := h.ends
  comes window reports hno := (heq window reports).trans (h.comes window reports hno)
  crashes window reports hover := by
    rw [heq]
    exact h.crashes window reports hover

namespace Tells

/-! ## Control -/

/-- An answer tells the same of every window. -/
theorem pure {value : α} : Tells context tokens (pure value : Parser α) := fun state ha =>
  ⟨[], .ok value state, .none ha nofun fun _ _ => rfl⟩

/-- So does a failure other than the count that overflows. -/
theorem throw {stop : Stop} (h : stop ≠ .crash .countOverflow) :
    Tells context tokens (throw stop : Parser α) := fun state ha =>
  ⟨[], .error stop state, .none ha (fun _ heq => h (by cases heq; rfl)) fun _ _ => rfl⟩

/-- What is met with first comes first, and an overflow ends all. -/
theorem bind (h : Tells context tokens parser) (hn : ∀ value, Tells context tokens (next value)) :
    Tells context tokens (parser >>= next) := by
  intro state ha
  obtain ⟨events, first, hfirst⟩ := h state ha
  cases first with
  | error stop failed =>
    have hends : ∀ after, (.error stop failed : EStateM.Result Stop State β) ≠
        .error (.crash .countOverflow) after := fun after heq => by
      cases heq
      exact hfirst.ends _ rfl
    refine ⟨events, .error stop failed, hfirst.sound, hfirst.abreast, hends,
      fun window reports hno => ?_, fun window reports hover => ?_⟩
    · rw [bind_of_error (hfirst.comes window reports hno)]
      rfl
    · obtain ⟨after, hcrash⟩ := hfirst.crashes window reports hover
      exact ⟨after, bind_of_error hcrash⟩
  | ok value middle =>
    obtain ⟨more, outcome, hmore⟩ := hn value middle hfirst.abreast
    refine ⟨events ++ more, outcome, fun event hm => ?_, hmore.abreast, hmore.ends,
      fun window reports hno => ?_, fun window reports hover => ?_⟩
    · exact (List.mem_append.1 hm).elim (hfirst.sound event) (hmore.sound event)
    · have hno' := fun event hm => hno event (List.mem_append_right events hm)
      rw [bind_of_ok (hfirst.comes window reports fun event hm =>
        hno event (List.mem_append_left more hm)), hmore.comes window _ hno', List.flatMap_append,
        Diagnostics.append, Diagnostics.append, Diagnostics.append, List.append_assoc]
    · by_cases hno : ∃ event ∈ events, event.Overflows window
      · obtain ⟨after, hcrash⟩ := hfirst.crashes window reports hno
        exact ⟨after, bind_of_error hcrash⟩
      · have hover' : ∃ event ∈ more, event.Overflows window := by
          obtain ⟨event, hm, ho⟩ := hover
          exact ⟨event, (List.mem_append.1 hm).resolve_left fun hm => hno ⟨event, hm, ho⟩, ho⟩
        rw [bind_of_ok (hfirst.comes window reports fun event hm ho => hno ⟨event, hm, ho⟩)]
        exact hmore.crashes window _ hover'

/-- A choice tells the same if both of its sides do. -/
theorem ite {c : Prop} [Decidable c] {yes no : Parser α} (hy : Tells context tokens yes)
    (hn : Tells context tokens no) : Tells context tokens (if c then yes else no) := by
  split
  · exact hy
  · exact hn

/-- The state is looked at but for its reports. -/
theorem get {next : State → Parser β}
    (heq : ∀ state reports, next (state.reporting reports) = next state)
    (h : ∀ state, Tells context tokens (next state)) : Tells context tokens (get >>= next) := by
  intro state ha
  obtain ⟨events, outcome, hnext⟩ := h state state ha
  exact ⟨events, outcome, hnext.congr fun window reports => by rw [get_bind, heq]⟩

/-- So are the tokens ahead. -/
theorem looking {next : View → Parser α} (h : ∀ view, Tells context tokens (next view)) :
    Tells context tokens (looking next) := by
  intro state ha
  obtain ⟨events, outcome, hnext⟩ := h (state.view context) state ha
  exact ⟨events, outcome, hnext.congr fun _ _ => rfl⟩

/-- A change of the state that leaves the reports alone. -/
theorem modify {change : State → State}
    (heq : ∀ state reports, change (state.reporting reports) = (change state).reporting reports)
    (h : ∀ state, Abreast tokens state → Abreast tokens (change state)) :
    Tells context tokens (modify change : Parser Unit) := fun state ha =>
  ⟨[], .ok () (change state), .none (h state ha) nofun fun _ reports =>
    congrArg (EStateM.Result.ok ()) (heq state reports)⟩

/-- A parser between two changes that leave alone what has been read and reported. -/
theorem around {enter leave : State → State}
    (he : ∀ state reports, enter (state.reporting reports) = (enter state).reporting reports)
    (hv : ∀ state reports, leave (state.reporting reports) = (leave state).reporting reports)
    (ha : ∀ state, Abreast tokens state → Abreast tokens (enter state))
    (ha' : ∀ state, Abreast tokens state → Abreast tokens (leave state))
    (h : Tells context tokens parser) : Tells context tokens (around enter leave parser) := by
  intro state hstate
  obtain ⟨events, outcome, hinside⟩ := h (enter state) (ha state hstate)
  have hcrashes : ∀ window reports, (∃ event ∈ events, event.Overflows window) →
      ∃ after, Grammar.around enter leave parser (context.within window) (state.reporting reports) =
        .error (.crash .countOverflow) after := fun window reports hover => by
    obtain ⟨after, hcrash⟩ := hinside.crashes window reports hover
    exact ⟨leave after, by rw [Grammar.around, he, hcrash]⟩
  cases outcome with
  | ok value after =>
    refine ⟨events, .ok value (leave after), hinside.sound, ha' _ hinside.abreast,
      (fun _ heq => by cases heq), fun window reports hno => ?_, hcrashes⟩
    rw [Grammar.around, he, hinside.comes window reports hno]
    exact congrArg (EStateM.Result.ok value) (hv _ _)
  | error stop after =>
    have hends : ∀ other, (.error stop (leave after) : EStateM.Result Stop State α) ≠
        .error (.crash .countOverflow) other := fun other heq => by
      cases heq
      exact hinside.ends _ rfl
    refine ⟨events, .error stop (leave after), hinside.sound, ha' _ hinside.abreast, hends,
      fun window reports hno => ?_, hcrashes⟩
    rw [Grammar.around, he, hinside.comes window reports hno]
    exact congrArg (EStateM.Result.error stop) (hv _ _)

/-- A failure that is caught tells the same. -/
theorem attempt (h : Tells context tokens parser) : Tells context tokens (attempt parser) := by
  intro state ha
  obtain ⟨events, outcome, hinside⟩ := h state ha
  refine ⟨events, Grammar.attempt (fun _ _ => outcome) context state, hinside.sound, ?_, ?_,
    fun window reports hno => ?_, fun window reports hover => ?_⟩
  · have habreast := hinside.abreast
    cases outcome with
    | ok value after => exact habreast
    | error stop after => cases stop <;> exact habreast
  · have hends := hinside.ends
    cases outcome with
    | ok value after => exact nofun
    | error stop after =>
      cases stop with
      | recovered => exact nofun
      | crash failure =>
        intro other heq
        cases heq
        exact hends _ rfl
  · rw [Grammar.attempt, hinside.comes window reports hno]
    cases outcome with
    | ok value after => rfl
    | error stop after => cases stop <;> rfl
  · obtain ⟨after, hcrash⟩ := hinside.crashes window reports hover
    exact ⟨after, by rw [Grammar.attempt, hcrash]⟩

/-- A loop tells the same if its rounds do. -/
theorem iterate {round : α → Parser (Turn α β)} (h : ∀ value, Tells context tokens (round value))
    (value : α) : Tells context tokens (iterate round value) := by
  refine .get (fun _ _ => rfl) fun start => ?_
  generalize start.rest = list
  induction list generalizing value with
  | nil =>
    refine .bind (h value) ?_
    rintro (value | result)
    · exact .throw nofun
    · exact .pure
  | cons token list ih =>
    refine .bind (h value) ?_
    rintro (value | result)
    · exact ih value
    · exact .pure

/-! ## Reports -/

/-- A diagnostic that is never suppressed is told with every window. -/
theorem push {diagnostic : Diagnostic}
    (hd : diagnostic.code ≠ .syntaxError ∨ diagnostic.message ∈ placementMessages) :
    Tells context tokens (push diagnostic) := fun state ha =>
  ⟨_, .ok () state, .push ha nofun hd fun _ _ => rfl⟩

/-- A syntax error is met with at the token ahead. -/
theorem reportSyntax {message : String} : Tells context tokens (reportSyntax message) := by
  intro state ha
  let report :=
    if startsWith .error state.rest then none else some (syntaxReport context state.rest message)
  have hsound : (Event.erred state.resync state.position report).Sound context tokens := by
    refine ⟨ha.resync, ha.position, ?_, fun diagnostic hd => ⟨message, ?_⟩⟩
    · rw [← ha.rest]
      simp [report]
    · rw [← ha.rest]
      simp only [report, Option.mem_def, Option.ite_none_left_eq_some] at hd
      exact (Option.some.inj hd.2).symm
  refine ⟨[.erred state.resync state.position report], .ok () state,
    fun event hm => List.mem_singleton.1 hm ▸ hsound, ha, nofun, fun window reports hno => ?_,
    fun window reports hover => ?_⟩
  · have hlt : ∀ start, state.resync = some start →
        start ≤ state.position ∧ start + window < Text.wordBound := fun start hs =>
      ⟨ha.resync start hs, Nat.lt_of_not_le fun ho => hno _ List.mem_cons_self ⟨start, hs, ho⟩⟩
    have hwithin : (∃ start ∈ state.resync, state.position - start < window) ↔
        (state.reporting reports).withinWindow window = true := by
      rw [State.withinWindow_iff]
      refine exists_congr fun start => and_congr_right fun hs => ?_
      have := (hlt start hs).1
      exact Nat.sub_lt_iff_lt_add' this
    rw [@reportSyntax_eq (context.within window) (state.reporting reports) message hlt]
    refine congrArg (EStateM.Result.ok ()) ?_
    rw [List.flatMap_cons, List.flatMap_nil, List.append_nil, Event.shown]
    by_cases hnear : (state.reporting reports).withinWindow window = true
    · rw [if_pos (hwithin.2 hnear), append_nil_eq]
      exact if_pos (by rw [show (context.within window).options.suppressionWindow = window from rfl,
        hnear, Bool.true_or])
    · rw [if_neg fun h => hnear (hwithin.1 h)]
      rw [show (context.within window).options.suppressionWindow = window from rfl,
        Bool.eq_false_iff.2 hnear, Bool.false_or]
      by_cases herror : startsWith .error state.rest = true
      · rw [if_pos (show startsWith .error (state.reporting reports).rest = true from herror)]
        simp only [report, herror, if_true, Option.toList_none, append_nil_eq]
      · rw [if_neg (show ¬startsWith .error (state.reporting reports).rest = true from herror)]
        simp only [report, herror]
        rfl
  · obtain ⟨event, hm, ho⟩ := hover
    obtain rfl := List.mem_singleton.1 hm
    obtain ⟨start, hs, ho⟩ := ho
    have hle : start ≤ (state.reporting reports).position := ha.resync start hs
    exact ⟨_, reportSyntax_overflow hs hle ho⟩

/-- A syntax error is told, shown or not. -/
theorem failSyntax {message : String} : Tells context tokens (failSyntax message : Parser α) :=
  .bind .reportSyntax fun _ => .throw nofun

/-! ## Pieces -/

/-- Tokens are passed in the same way with every window. -/
theorem passOver {n : Nat} : Tells context tokens (passOver n) :=
  .modify (pass_reporting n) fun _ ha => ha.pass n

/-- The same node is placed with every window. -/
theorem place {kind : NodeKind Placed} {span : Span} : Tells context tokens (place kind span) := by
  intro state ha
  cases hpush : state.builder.push (kind.map Placed.id) span with
  | error fault =>
    refine ⟨[], .error (.crash (.fault fault)) state, .none ha nofun fun window reports => ?_⟩
    unfold Grammar.place
    rw [get_bind, show (state.reporting reports).builder = state.builder from rfl, hpush]
    rfl
  | ok pushed =>
    refine ⟨[], .ok ⟨pushed.1, kind.map Placed.id, span⟩ { state with builder := pushed.2 },
      .none (ha.same rfl rfl rfl) nofun fun window reports => ?_⟩
    unfold Grammar.place
    rw [get_bind, show (state.reporting reports).builder = state.builder from rfl, hpush]
    rfl

/-- So is a node that began earlier. -/
theorem placeFrom {start : Span} {kind : NodeKind Placed} :
    Tells context tokens (placeFrom start kind) := by
  refine .bind (fun state ha => ?_) fun _ => .place
  exact ⟨[], .ok ⟨context.source, start.start, max state.previousEnd start.start⟩ state,
    .none ha nofun fun _ _ => rfl⟩

/-- The type of an angle is changed with every window. -/
theorem retagAngle {node : Placed} : Tells context tokens (retagAngle node) := by
  unfold Grammar.retagAngle
  split
  · exact .bind (.modify (fun _ _ => rfl) fun _ ha => ha.same rfl rfl rfl) fun _ => .pure
  · exact .pure

/-- The same name is declared with every window. -/
theorem declare {name : Placed} : Tells context tokens (declare name) := by
  refine .get (fun _ _ => rfl) fun state => ?_
  split
  · split
    · exact .push (.inl nofun)
    · exact .modify (fun _ _ => rfl) fun _ ha => ha.same rfl rfl rfl
  · exact .pure

/-! ## Nesting -/

/-- Within a scope, a parser tells the same. -/
theorem inScope (h : Tells context tokens parser) : Tells context tokens (inScope parser) :=
  .around (fun _ _ => rfl) (fun _ _ => rfl) (fun _ ha => ha.same rfl rfl rfl)
    (fun _ ha => ha.same rfl rfl rfl) h

/-- Within a brace, it does so too. -/
theorem blockOpen (h : Tells context tokens parser) : Tells context tokens (blockOpen parser) :=
  .around (fun _ _ => rfl) (fun _ _ => rfl) (fun _ ha => ha.same rfl rfl rfl)
    (fun _ ha => ha.same rfl rfl rfl) h

/-- The overflow of the depth is told once. -/
theorem overflow : Tells context tokens (overflow : Parser α) := by
  intro state ha
  cases hu : state.unwinding with
  | some blocks =>
    refine ⟨[], .error .recovered state, .none ha nofun fun window reports => ?_⟩
    rw [overflow_eq, show (state.reporting reports).unwinding = some blocks from hu]
    rfl
  | none =>
    refine ⟨_, .error .recovered { state with unwinding := some state.openBlocks },
      @Encounters.push _ _ _ _ _ _ (overflowReport context state.rest) (ha.same rfl rfl rfl)
        nofun (.inl nofun) fun window reports => ?_⟩
    rw [overflow_eq, show (state.reporting reports).unwinding = Option.none from hu]
    rfl

/-- The limit of the depth is met with every window or with none. -/
theorem nested (h : Tells context tokens parser) : Tells context tokens (nested parser) := by
  have hdeeper : Tells context tokens (deeper parser) :=
    .around (fun _ _ => rfl) (fun _ _ => rfl) (fun _ ha => ha.same rfl rfl rfl)
      (fun _ ha => ha.same rfl rfl rfl) h
  intro state ha
  by_cases hlt : state.depth < context.options.maxDepth
  · obtain ⟨events, outcome, hinside⟩ := hdeeper state ha
    exact ⟨events, outcome, hinside.congr fun _ _ => nested_of_lt hlt⟩
  · obtain ⟨events, outcome, hinside⟩ := overflow (α := α) state ha
    exact ⟨events, outcome, hinside.congr fun _ _ => nested_of_le (Nat.not_lt.1 hlt)⟩

end Tells

/-! ## Productions -/

variable {inner : Level}

/-- Every parser that is composed of the pieces tells the same, if the levels below do. -/
theorem Composed.tells {has : Feature → Prop} {parser : Level → Parser α} (hc : Composed has parser)
    (h : ∀ production, Tells context tokens (inner production)) :
    Tells context tokens (parser inner) := by
  induction hc with
  | inner production _ => exact h production
  | blockItems => exact .blockOpen (h .blockItems)
  | pure => exact .pure
  | bind _ _ ih ihn => exact .bind ih ihn
  | looking _ ih => exact .looking ih
  | iterate _ ih => exact .iterate ih _
  | blockOpen _ ih => exact .blockOpen ih
  | inScope _ _ ih => exact .inScope ih
  | failSyntax => exact .failSyntax
  | passOver => exact .passOver
  | report hm => exact .push (.inr hm)
  | misread => exact .bind (.push (.inl nofun)) fun _ => .place
  | overflows => exact .throw nofun
  | place => exact .place
  | retagAngle => exact .retagAngle
  | declare => exact .declare
  | setVersion => exact .modify (fun _ _ => rfl) fun _ ha => ha.same rfl rfl rfl
  | requireVersion3 => exact .get (fun _ _ => rfl) fun _ => .ite (.push (.inl nofun)) .pure
  | deprecated => exact .get (fun _ _ => rfl) fun _ => .ite .pure (.push (.inl nofun))

/-- So does what is done about a failure. -/
theorem afterStop_tells {mark before : Nat} {start : Span} :
    Tells context tokens (afterStop mark before start) := by
  refine .bind (.modify (fun _ _ => rfl) fun _ ha => ha.same rfl rfl rfl) fun _ => ?_
  have hsync : ∀ opened, Tells context tokens (synchronize before opened) := fun opened =>
    .get (fun _ _ => rfl) fun _ => .bind .passOver fun _ => .modify (fun _ _ => rfl) fun _ ha =>
      ⟨ha.position, ha.rest, fun _ hs => Nat.le_of_eq (Option.some.inj hs).symm⟩
  intro state ha
  by_cases hu : state.unwinding.isSome ∧ 0 < state.openBlocks
  · refine ⟨[], .error .recovered state, .none ha nofun fun window reports => ?_⟩
    rw [get_bind]
    exact congrFun (congrFun (if_pos hu) _) _
  · have hplaced : Tells context tokens (Grammar.placeFrom start .error) := .placeFrom
    obtain ⟨events, outcome, hrest⟩ := Tells.bind (hsync (state.unwinding.getD 0))
      (fun _ => hplaced) { state with unwinding := none } (ha.same rfl rfl rfl)
    refine ⟨events, outcome, hrest.congr fun window reports => ?_⟩
    rw [get_bind]
    have hnot : ¬((state.reporting reports).unwinding.isSome ∧
        0 < (state.reporting reports).openBlocks) := hu
    rw [if_neg hnot]
    rfl

/-- So does a statement, or the node left in its place. -/
theorem statementOrError_tells (h : Tells context tokens (statement inner)) :
    Tells context tokens (statementOrError inner) := by
  rw [statementOrError_eq]
  refine .get (fun _ _ => rfl) fun mark => .get (fun _ _ => rfl) fun before => ?_
  refine .bind (fun state ha => ⟨[], .ok (nextSpan context state.rest) state,
    .none ha nofun fun window reports => currentSpan_eq (context.within window) _⟩) fun start => ?_
  refine .bind h.attempt fun node => ?_
  cases node with
  | some node => exact .pure
  | none => exact afterStop_tells

/-- A look at the next kind tells the same. -/
theorem Tells.peek {next : Option TokenKind → Parser β}
    (h : ∀ kind, Tells context tokens (next kind)) : Tells context tokens (peek >>= next) := by
  refine .bind (fun state ha => ?_) h
  exact ⟨[], .ok (state.rest.head?.map Token.kind) state, .none ha nofun fun _ _ => rfl⟩

/-- The productions of all levels meet with the same whatever the window. -/
theorem level_tells (levels : Nat) (production : Production) :
    Tells context tokens (level levels production) := by
  induction levels generalizing production with
  | zero => exact .throw nofun
  | succ levels ih =>
    refine .nested ?_
    by_cases hitems : production = .blockItems
    · subst hitems
      refine .inScope (.iterate (fun items => .peek fun next => ?_) [])
      split
      · exact .pure
      · exact .pure
      · exact .bind (statementOrError_tells (statement_composed.tells ih)) fun _ => .pure
    · exact (parse_composed hitems).tells ih

/-- The items of a program tell the same if each does. -/
theorem programItems_tells (h : Tells context tokens (statementOrError inner)) :
    Tells context tokens (programItems inner) := by
  refine .iterate (fun items => .peek fun next => ?_) []
  split
  · exact .pure
  · exact .bind .reportSyntax fun _ => .bind .passOver fun _ => .pure
  · refine .bind h.attempt ?_
    rintro (- | node) <;> exact .pure

/-- A whole program tells the same of every window. -/
theorem program_tells : Tells context tokens program := by
  intro state ha
  have hitems : Tells context tokens (programItems (level (context.options.maxDepth + 1))) :=
    programItems_tells (statementOrError_tells (statement_composed.tells (level_tells _)))
  have hplaced : ∀ items, Tells context tokens
      (place (.program items) ⟨context.source, 0, min (Text.width context.text) maxOffset⟩) :=
    fun _ => .place
  obtain ⟨events, outcome, hprogram⟩ := hitems.bind hplaced state ha
  refine ⟨events, outcome, hprogram.congr fun window reports => ?_⟩
  unfold program
  rw [read_bind]
  rfl

end

/-! ## Parses -/

/-- The count of the tokens read is right at the start. -/
theorem abreast_startState (source : SourceId) (text : List Char) (options : ParseOptions) :
    Abreast (startState source text options).rest (startState source text options) :=
  ⟨Nat.zero_le _, rfl, nofun⟩

section
variable {source : SourceId} {text : List Char} {options : ParseOptions} {events : List Event}
  {outcome : EStateM.Result Stop State Placed} {window : Nat}

/-- Where an event overflows with a window, the parse with this window does. -/
theorem parse_of_overflow
    (h : Encounters ⟨source, text, options⟩ (startState source text options).rest program
      (startState source text options) events outcome)
    (hover : ∃ event ∈ events, event.Overflows window) :
    parse source text { options with suppressionWindow := window } = .error .countOverflow := by
  obtain ⟨after, hcrash⟩ := h.crashes window {} hover
  have hprogram : program ⟨source, text, { options with suppressionWindow := window }⟩
      (startState source text { options with suppressionWindow := window }) =
        .error (.crash .countOverflow) after := hcrash
  rw [parse_eq, hprogram]

/-- As long as no event overflows, the end of the program makes a tree, or the exponent of a number
has no size. -/
theorem parse_of_encounters
    (h : Encounters ⟨source, text, options⟩ (startState source text options).rest program
      (startState source text options) events outcome)
    (hno : ∀ event ∈ events, ¬event.Overflows window) :
    (∃ root state tree, outcome = .ok root state ∧ state.builder.finish root.id = .ok tree ∧
      parse source text { options with suppressionWindow := window } = .ok
        { tree
          diagnostics := Diagnostics.sorted
            ⟨(tokenize source text).2 ++ events.flatMap (Event.shown window)⟩ }) ∨
    ∃ state, outcome = .error (.crash .exponentOverflow) state ∧
      Overflows ⟨source, text, { options with suppressionWindow := window }⟩
        (startState source text options).rest .exponentOverflow ∧
      parse source text { options with suppressionWindow := window } =
        .error .exponentOverflow := by
  have hprogram : program ⟨source, text, { options with suppressionWindow := window }⟩
      (startState source text { options with suppressionWindow := window }) =
        reportingEnd ⟨events.flatMap (Event.shown window)⟩ outcome := h.comes window {} hno
  have hparse := parse_eq source text { options with suppressionWindow := window }
  rw [hprogram] at hparse
  have hcompletes := parse_completes source text { options with suppressionWindow := window }
  rw [Crashes, hparse] at hcompletes
  rw [hparse]
  cases outcome with
  | error stop failed =>
    right
    rcases hcompletes with ⟨-, -, output, -, hok, -⟩ | ⟨failure, hcrash, hover⟩
    · cases stop <;> cases hok
    · cases stop with
      | recovered =>
        cases hcrash
        cases hover
      | crash failure' =>
        obtain rfl : failure' = failure := Except.error.inj hcrash
        cases failure' with
        | exponentOverflow => exact ⟨failed, rfl, hover, rfl⟩
        | countOverflow => exact absurd rfl (h.ends failed)
        | _ => cases hover
  | ok root state =>
    left
    have hreporting : (state.reporting ⟨events.flatMap (Event.shown window)⟩).builder =
      state.builder := rfl
    simp only [reportingEnd, hreporting] at hcompletes ⊢
    cases hfinish : state.builder.finish root.id with
    | ok tree => exact ⟨root, state, tree, rfl, hfinish, rfl⟩
    | error fault =>
      rw [hfinish] at hcompletes
      rcases hcompletes with ⟨-, -, output, -, hok, -⟩ | ⟨failure, hcrash, hover⟩
      · cases hok
      · cases hcrash
        cases hover

end

/-- A parse under any window meets with the same events, and comes to the same tree or, where the
exponent of a number has no size, to that crash. It reports what is shown of the events, unless the
count of tokens leaves the machine numbers at one of them. -/
theorem parse_suppresses (source : SourceId) (text : List Char) (options : ParseOptions) :
    ∃ (result : Except Crash Tree) (events : List Event),
      (∀ event ∈ events,
        event.Sound ⟨source, text, options⟩ (startState source text options).rest) ∧
      (∀ failure, result = .error failure → failure = .exponentOverflow ∧
        Overflows ⟨source, text, options⟩ (startState source text options).rest failure) ∧
      ∀ window,
        (∀ event ∈ events, ¬event.Overflows window) ∧
          parse source text { options with suppressionWindow := window } =
            result.map (fun tree =>
              { tree
                diagnostics := Diagnostics.sorted
                  ⟨(tokenize source text).2 ++ events.flatMap (Event.shown window)⟩ }) ∨
        (∃ event ∈ events, event.Overflows window) ∧
          parse source text { options with suppressionWindow := window } =
            .error .countOverflow := by
  obtain ⟨events, outcome, h⟩ := @program_tells ⟨source, text, options⟩ _
    (startState source text options) (abreast_startState source text options)
  by_cases hall : ∀ window, ∃ event ∈ events, event.Overflows window
  · exact ⟨.ok ⟨#[], ⟨0⟩, []⟩, events, h.sound, nofun, fun window =>
      .inr ⟨hall window, parse_of_overflow h (hall window)⟩⟩
  obtain ⟨small, hsmall⟩ := Classical.not_forall.1 hall
  have hquiet : ∀ event ∈ events, ¬event.Overflows small :=
    fun event hm ho => hsmall ⟨event, hm, ho⟩
  rcases parse_of_encounters h hquiet with ⟨root, state, tree, rfl, hfinish, -⟩ |
    ⟨state, rfl, hover, -⟩
  · refine ⟨.ok tree, events, h.sound, nofun, fun window => ?_⟩
    by_cases hover : ∃ event ∈ events, event.Overflows window
    · exact .inr ⟨hover, parse_of_overflow h hover⟩
    · have hno : ∀ event ∈ events, ¬event.Overflows window := fun event hm ho =>
        hover ⟨event, hm, ho⟩
      rcases parse_of_encounters h hno with ⟨root', state', tree', heq, hfinish', hparse⟩ |
        ⟨_, heq, -⟩
      · cases heq
        obtain rfl := Except.ok.inj (hfinish'.symm.trans hfinish)
        exact .inl ⟨hno, hparse⟩
      · cases heq
  · refine ⟨.error .exponentOverflow, events, h.sound, ?_, fun window => ?_⟩
    · rintro _ ⟨⟩
      exact ⟨rfl, hover.exponent_congr rfl⟩
    · by_cases hover : ∃ event ∈ events, event.Overflows window
      · exact .inr ⟨hover, parse_of_overflow h hover⟩
      · have hno : ∀ event ∈ events, ¬event.Overflows window := fun event hm ho =>
          hover ⟨event, hm, ho⟩
        rcases parse_of_encounters h hno with ⟨_, _, _, heq, -⟩ | ⟨_, -, -, hparse⟩
        · cases heq
        · exact .inl ⟨hno, hparse⟩

/-- Settings that are valid may have so wide a window that a second syntax error is one too many. -/
theorem not_parse_ok_window :
    ¬∀ (settings : Settings) (version : Option Version) (text : List Char),
      settings.validate = .ok settings → settings.suppressionWindow < Text.wordBound →
      ∃ output, parse ⟨0⟩ text (settings.parseOptions version) = .ok output := by
  intro hall
  let settings : Settings := { suppressionWindow := 18446744073709551615 }
  obtain ⟨output, hok⟩ := hall settings none "\x7b ; )".toList rfl (by decide)
  have hcrash : (parse ⟨0⟩ "\x7b ; )".toList (settings.parseOptions none)).toBool = false := by
    decide +kernel
  rw [hok] at hcrash
  cases hcrash

end OpenQasm.Grammar
