import OpenQasm.Proofs.Diagnostic.Filtering
import OpenQasm.Proofs.Grammar.Versions

/-!
# The version that a text inherits

Two parses of one text that inherit different versions go through the same states but for what is
noted: the version in force and the reports. A likeness of notes that all moves of a parser respect
is kept by every production and by every recovery. Two of them matter. Notes are alike if they say
the same apart from the features of a version; and they are alike if they are equal, so that nothing
looks at the inherited version once another one is in force.
-/

namespace OpenQasm.Grammar

/-- What is noted in a state, and decides about nothing but what is noted later. -/
structure Notes where
  diagnostics : Diagnostics
  version : Option Version

namespace Notes

def push (notes : Notes) (diagnostic : Diagnostic) : Notes :=
  { notes with diagnostics := notes.diagnostics.push diagnostic }

def stating (notes : Notes) (version : Version) : Notes := { notes with version := some version }

/-- What is said about a feature that a version lacks. -/
def lacking (version : Option Version) (span : Span) (feature : String) : Diagnostic where
  code := .unsupportedFeature
  span := span
  message := s!"{feature} is not available in OpenQASM {versionText version}"

/-- What is said about a feature that a version has left behind. -/
def outdated (version : Option Version) (span : Span) (feature : String) (fix : Option Fix) :
    Diagnostic where
  code := .semanticWarning
  span := span
  message := s!"{feature} is deprecated in OpenQASM {versionText version}"
  fix := fix

def requiring (notes : Notes) (span : Span) (feature : String) : Notes :=
  if isVersion2 notes.version then notes.push (lacking notes.version span feature) else notes

def deprecating (notes : Notes) (span : Span) (feature : String) (fix : Option Fix) : Notes :=
  if isVersion2 notes.version then notes else notes.push (outdated notes.version span feature fix)

end Notes

namespace State

def notes (state : State) : Notes := ⟨state.diagnostics, state.version⟩

/-- The state with other notes. -/
def noting (state : State) (notes : Notes) : State :=
  { state with diagnostics := notes.diagnostics, version := notes.version }

end State

/-- Tokens are passed in the same way whatever has been noted. -/
theorem pass_noting (n : Nat) (state : State) (notes : Notes) :
    State.pass n (state.noting notes) = (State.pass n state).noting notes := by
  induction n generalizing state with
  | zero => rfl
  | succ n ih =>
    rw [State.pass, State.pass, show (state.noting notes).rest = state.rest from rfl]
    split
    · rfl
    · next token rest _ =>
      exact ih { state with
        rest, position := state.position + 1, previousEnd := token.span.stop }

/-- A feature of version 3 adds a note and does nothing else. -/
theorem requireVersion3_eq (context : Context) (state : State) (span : Span) (feature : String) :
    requireVersion3 span feature context state =
      .ok () (state.noting (state.notes.requiring span feature)) := by
  have hnotes : state.notes.version = state.version := rfl
  unfold requireVersion3 Notes.requiring
  rw [get_bind, hnotes]
  by_cases h : isVersion2 state.version
  · simp only [if_pos h]
    rfl
  · simp only [if_neg h]
    rfl

/-- So does a deprecated one. -/
theorem deprecated_eq (context : Context) (state : State) (span : Span) (feature : String)
    (fix : Option Fix) : deprecated span feature fix context state =
      .ok () (state.noting (state.notes.deprecating span feature fix)) := by
  have hnotes : state.notes.version = state.version := rfl
  unfold deprecated Notes.deprecating
  rw [get_bind, hnotes]
  by_cases h : isVersion2 state.version
  · simp only [if_pos h]
    rfl
  · simp only [if_neg h]
    rfl

/-- A change of the state that neither sees nor changes what is noted. -/
structure Notes.Apart (change : State → State) : Prop where
  noting (state : State) (notes : Notes) : change (state.noting notes) = (change state).noting notes
  notes (state : State) : (change state).notes = state.notes

/-- A context in which another version is inherited. -/
def Context.inheriting (context : Context) (version : Option Version) : Context :=
  { context with options := { context.options with defaultVersion := version } }

/-- A likeness of what is noted that the moves of a parser respect. -/
structure Likeness where
  Alike : Notes → Notes → Prop
  push : ∀ {notes other} (diagnostic : Diagnostic), Alike notes other →
    Alike (notes.push diagnostic) (other.push diagnostic)
  stating : ∀ {notes other} (version : Version), Alike notes other →
    Alike (notes.stating version) (other.stating version)
  requiring : ∀ {notes other} (span : Span) (feature : String), Alike notes other →
    Alike (notes.requiring span feature) (other.requiring span feature)
  deprecating : ∀ {notes other} (span : Span) (feature : String) (fix : Option Fix),
    Alike notes other →
    Alike (notes.deprecating span feature fix) (other.deprecating span feature fix)

namespace Likeness

/-- How two parsers end that were started in states that differ in what is noted only. -/
inductive Joins (l : Likeness) {α : Type} :
    EStateM.Result Stop State α → EStateM.Result Stop State α → Prop
  | ok {value : α} {state : State} {notes : Notes} :
      l.Alike state.notes notes → Joins l (.ok value state) (.ok value (state.noting notes))
  | error {stop : Stop} {state : State} {notes : Notes} :
      l.Alike state.notes notes → Joins l (.error stop state) (.error stop (state.noting notes))

/-- Whatever version is inherited, a parser ends alike in states with notes that are alike. -/
def Keeps (l : Likeness) {α : Type} (parser : Parser α) : Prop :=
  ∀ context version state notes, l.Alike state.notes notes →
    l.Joins (parser context state) (parser (context.inheriting version) (state.noting notes))

section
variable {l : Likeness} {α β : Type} {parser : Parser α} {next : α → Parser β}

namespace Keeps

/-! ## Control -/

/-- A parser that only answers keeps to the relation. -/
theorem pure {value : α} : l.Keeps (pure value) := by
  intro context version state notes halike
  exact .ok halike

/-- A parser that only fails keeps to it. -/
theorem throw {stop : Stop} : l.Keeps (throw stop : Parser α) := by
  intro context version state notes halike
  exact .error halike

/-- Two parsers that keep to it do so in sequence. -/
theorem bind (h : l.Keeps parser) (hn : ∀ value, l.Keeps (next value)) :
    l.Keeps (parser >>= next) := by
  intro context version state notes halike
  have hfirst := h context version state notes halike
  generalize hleft : parser context state = left at hfirst
  generalize hright : parser (context.inheriting version) (state.noting notes) = right at hfirst
  cases hfirst with
  | ok hmiddle =>
    rw [bind_of_ok hleft, bind_of_ok hright]
    exact hn _ _ _ _ _ hmiddle
  | error hmiddle =>
    rw [bind_of_error hleft, bind_of_error hright]
    exact .error hmiddle

/-- A parser may look at the state if what it goes on with does not depend on the notes. -/
theorem get {next : State → Parser β}
    (heq : ∀ state notes, next (state.noting notes) = next state)
    (h : ∀ state, l.Keeps (next state)) : l.Keeps (get >>= next) := by
  intro context version state notes halike
  rw [get_bind, get_bind, heq]
  exact h state context version state notes halike

/-- It may look at the context if what it goes on with does not depend on the version. -/
theorem read {next : Context → Parser β}
    (heq : ∀ context version, next (context.inheriting version) = next context)
    (h : ∀ context, l.Keeps (next context)) : l.Keeps (read >>= next) := by
  intro context version state notes halike
  rw [read_bind, read_bind, heq]
  exact h context context version state notes halike

/-- It may look at the tokens ahead. -/
theorem looking {next : View → Parser α} (h : ∀ view, l.Keeps (next view)) :
    l.Keeps (looking next) := by
  intro context version state notes halike
  exact h (state.view context) context version state notes halike

/-- A choice keeps to the relation if both of its sides do. -/
theorem ite {p : Prop} [Decidable p] {yes no : Parser α} (hy : l.Keeps yes) (hn : l.Keeps no) :
    l.Keeps (if p then yes else no) := by
  split
  · exact hy
  · exact hn

/-- A loop along given tokens keeps to it if its rounds do. -/
theorem iterateAlong {round : α → Parser (Turn α β)} (h : ∀ value, l.Keeps (round value))
    (tokens : List Token) (value : α) : l.Keeps (iterateAlong round tokens value) := by
  induction tokens generalizing value with
  | nil =>
    refine .bind (h value) fun turn => ?_
    cases turn with
    | again value => exact .throw
    | done result => exact .pure
  | cons token tokens ih =>
    refine .bind (h value) fun turn => ?_
    cases turn with
    | again value => exact ih value
    | done result => exact .pure

/-- A loop keeps to it if its rounds do. -/
theorem iterate {round : α → Parser (Turn α β)} (h : ∀ value, l.Keeps (round value)) (value : α) :
    l.Keeps (iterate round value) := by
  refine .get (fun _ _ => rfl) fun start => ?_
  exact iterateAlong h start.rest value

/-- A parser that keeps to it does so when its failure is caught. -/
theorem attempt (h : l.Keeps parser) : l.Keeps (attempt parser) := by
  intro context version state notes halike
  have hinside := h context version state notes halike
  generalize hleft : parser context state = left at hinside
  generalize hright : parser (context.inheriting version) (state.noting notes) = right at hinside
  cases hinside with
  | ok hafter =>
    simp only [Grammar.attempt, hleft, hright]
    exact .ok hafter
  | @error stop _ _ hafter =>
    simp only [Grammar.attempt, hleft, hright]
    cases stop with
    | recovered => exact .ok hafter
    | crash failure => exact .error hafter

/-! ## Changes of the state -/

/-- A change of the state that is apart from the notes keeps to it. -/
theorem change {change : State → State} (h : Notes.Apart change) :
    l.Keeps (modify change : Parser Unit) := by
  intro context version state notes halike
  have hright : (modify change : Parser Unit) (context.inheriting version) (state.noting notes) =
      .ok () ((change state).noting notes) := congrArg (EStateM.Result.ok ()) (h.noting state notes)
  rw [hright]
  exact .ok (by rwa [h.notes])

/-- A change of what is noted. -/
theorem note {parser : Parser Unit} (change : Notes → Notes)
    (heq : ∀ context state, parser context state = .ok () (state.noting (change state.notes)))
    (h : ∀ {notes other}, l.Alike notes other → l.Alike (change notes) (change other)) :
    l.Keeps parser := by
  intro context version state notes halike
  have hright : parser (context.inheriting version) (state.noting notes) =
      .ok () ((state.noting (change state.notes)).noting (change notes)) := heq _ _
  rw [heq, hright]
  exact .ok (h halike)

/-- A parser between two such changes keeps to it. -/
theorem around {enter leave : State → State} (he : Notes.Apart enter) (hv : Notes.Apart leave)
    (h : l.Keeps parser) : l.Keeps (around enter leave parser) := by
  intro context version state notes halike
  have hinside := h context version (enter state) notes (by rwa [he.notes])
  rw [← he.noting] at hinside
  generalize hleft : parser context (enter state) = left at hinside
  generalize hright :
    parser (context.inheriting version) (enter (state.noting notes)) = right at hinside
  cases hinside with
  | ok hafter =>
    simp only [Grammar.around, hleft, hright, hv.noting]
    exact .ok (by rwa [hv.notes])
  | error hafter =>
    simp only [Grammar.around, hleft, hright, hv.noting]
    exact .error (by rwa [hv.notes])

/-- One level further in, a parser keeps to it. -/
theorem deeper (h : l.Keeps parser) : l.Keeps (deeper parser) :=
  .around ⟨fun _ _ => rfl, fun _ => rfl⟩ ⟨fun _ _ => rfl, fun _ => rfl⟩ h

/-- Within a brace, a parser keeps to it. -/
theorem blockOpen (h : l.Keeps parser) : l.Keeps (blockOpen parser) :=
  .around ⟨fun _ _ => rfl, fun _ => rfl⟩ ⟨fun _ _ => rfl, fun _ => rfl⟩ h

/-- Within a scope, a parser keeps to it. -/
theorem inScope (h : l.Keeps parser) : l.Keeps (inScope parser) :=
  .around ⟨fun _ _ => rfl, fun _ => rfl⟩ ⟨fun _ _ => rfl, fun _ => rfl⟩ h

end Keeps

/-! ## Pieces -/

/-- The token at hand is the same in both runs. -/
theorem keeps_current : l.Keeps current := .get (fun _ _ => rfl) fun _ => .pure

/-- So is its kind. -/
theorem keeps_peek : l.Keeps peek := .bind keeps_current fun _ => .pure

/-- So is the answer to a test of its kind. -/
theorem keeps_sees {kind : TokenKind} : l.Keeps (sees kind) := .get (fun _ _ => rfl) fun _ => .pure

/-- The same tokens are passed in both runs. -/
theorem keeps_passOver {n : Nat} : l.Keeps (passOver n) := by
  refine .change ⟨fun state notes => ?_, fun state => ?_⟩
  · exact pass_noting n state notes
  · rw [pass_eq]
    rfl

/-- The same diagnostic is added in both runs. -/
theorem keeps_push {diagnostic : Diagnostic} : l.Keeps (Grammar.push diagnostic) :=
  .note (fun notes => notes.push diagnostic) (fun _ _ => rfl) (l.push diagnostic)

/-- The same report is made in both runs. -/
theorem keeps_report {code : Code} {span : Span} {message : String} :
    l.Keeps (report code span message) := keeps_push

/-- The span of the token at hand is the same in both runs. -/
theorem keeps_currentSpan : l.Keeps currentSpan := by
  refine .bind keeps_current fun token => ?_
  cases token with
  | some token => exact .pure
  | none => exact .read (fun _ _ => rfl) fun _ => .pure

/-- The window suppresses in both runs or in neither. -/
theorem keeps_isSuppressed : l.Keeps isSuppressed := by
  refine .get (fun _ _ => rfl) fun state => .read (fun _ _ => rfl) fun context => ?_
  split
  · exact .pure
  · exact .ite .pure (.ite .pure .throw)

/-- The same syntax error is reported, or suppressed, in both runs. -/
theorem keeps_reportSyntax {message : String} : l.Keeps (reportSyntax message) := by
  refine .bind keeps_isSuppressed fun suppressed => .bind keeps_sees fun error => ?_
  exact .ite .pure (.bind keeps_currentSpan fun span => keeps_report)

/-- Both runs fail with the same syntax error. -/
theorem keeps_failSyntax {message : String} : l.Keeps (failSyntax message : Parser α) :=
  .bind keeps_reportSyntax fun _ => .throw

/-- The span since a start is the same in both runs. -/
theorem keeps_spanFrom {start : Span} : l.Keeps (spanFrom start) :=
  .read (fun _ _ => rfl) fun _ => .get (fun _ _ => rfl) fun _ => .pure

/-- The same node is placed in both runs. -/
theorem keeps_place {kind : NodeKind Placed} {span : Span} : l.Keeps (place kind span) := by
  intro context version state notes halike
  unfold place
  rw [get_bind, get_bind, show (state.noting notes).builder = state.builder from rfl]
  cases state.builder.push (kind.map Placed.id) span with
  | error fault => exact .error halike
  | ok pushed => exact .ok halike

/-- So is a node that began earlier. -/
theorem keeps_placeFrom {start : Span} {kind : NodeKind Placed} : l.Keeps (placeFrom start kind) :=
  .bind keeps_spanFrom fun _ => keeps_place

/-- The type of an angle is changed in both runs or in neither. -/
theorem keeps_retagAngle {node : Placed} : l.Keeps (retagAngle node) := by
  unfold retagAngle
  split
  · exact .bind (.change ⟨fun _ _ => rfl, fun _ => rfl⟩) fun _ => .pure
  · exact .pure

/-- The same name is declared in both runs. -/
theorem keeps_declare {name : Placed} : l.Keeps (declare name) := by
  refine .get (fun _ _ => rfl) fun state => ?_
  split
  · split
    · exact keeps_push
    · exact .change ⟨fun _ _ => rfl, fun _ => rfl⟩
  · exact .pure

/-- Both runs stop at the same overflow. -/
theorem keeps_overflow : l.Keeps (overflow : Parser α) := by
  refine .get (fun _ _ => rfl) fun state => .read (fun _ _ => rfl) fun context => ?_
  refine .ite (.bind keeps_currentSpan fun span => .bind keeps_report fun _ => ?_) .throw
  exact .bind (.change ⟨fun _ _ => rfl, fun _ => rfl⟩) fun _ => .throw

/-- The limit of the depth is met in both runs or in neither. -/
theorem keeps_nested (h : l.Keeps parser) : l.Keeps (nested parser) := by
  refine .read (fun _ _ => rfl) fun context => .get (fun _ _ => rfl) fun state => ?_
  exact .ite keeps_overflow h.deeper

end

/-! ## Productions -/

section
variable {l : Likeness} {α : Type} {inner : Level}

/-- What is composed of productions that keep notes alike does so. -/
theorem keeps_composed {has : Feature → Prop} {parser : Level → Parser α} (hc : Composed has parser)
    (h : ∀ production, l.Keeps (inner production)) : l.Keeps (parser inner) := by
  induction hc with
  | inner production => exact h production
  | blockItems => exact .blockOpen (h .blockItems)
  | pure => exact .pure
  | bind _ _ ih ihn => exact .bind ih fun value => ihn value
  | looking _ ih => exact .looking fun view => ih view
  | iterate _ ih => exact .iterate (fun value => ih value) _
  | blockOpen _ ih => exact .blockOpen ih
  | inScope _ _ ih => exact .inScope ih
  | failSyntax => exact keeps_failSyntax
  | passOver => exact keeps_passOver
  | report => exact keeps_report
  | misread => exact .bind keeps_report fun _ => keeps_place
  | overflows => exact .throw
  | place => exact keeps_place
  | retagAngle => exact keeps_retagAngle
  | declare => exact keeps_declare
  | @setVersion version =>
    exact .note (fun notes => notes.stating version) (fun _ _ => rfl) (l.stating version)
  | requireVersion3 => exact .note _ (fun _ _ => requireVersion3_eq ..) (l.requiring _ _)
  | deprecated => exact .note _ (fun _ _ => deprecated_eq ..) (l.deprecating _ _ _)

/-! ## Recovery -/

/-- The recovery skips the same tokens in both runs. -/
theorem keeps_synchronize {before opened : Nat} : l.Keeps (synchronize before opened) := by
  refine .get (fun _ _ => rfl) fun state => .bind keeps_passOver fun _ => ?_
  exact .change ⟨fun _ _ => rfl, fun _ => rfl⟩

/-- It leaves the same node behind a failure in both runs. -/
theorem keeps_afterStop {mark before : Nat} {start : Span} :
    l.Keeps (afterStop mark before start) := by
  refine .bind (.change ⟨fun _ _ => rfl, fun _ => rfl⟩) fun _ => ?_
  intro context version state notes halike
  rw [get_bind, get_bind]
  by_cases hu : state.unwinding.isSome ∧ 0 < state.openBlocks
  · rw [if_pos hu, if_pos (show (state.noting notes).unwinding.isSome ∧
      0 < (state.noting notes).openBlocks from hu)]
    exact .error halike
  · rw [if_neg hu, if_neg (show ¬((state.noting notes).unwinding.isSome ∧
      0 < (state.noting notes).openBlocks) from hu)]
    have hrest : l.Keeps (synchronize before (state.unwinding.getD 0) >>= fun _ =>
        placeFrom start .error) := .bind keeps_synchronize fun _ => keeps_placeFrom
    exact hrest context version { state with unwinding := none } notes halike

/-- A statement, or the node left in its place, keeps to the relation if the statement does. -/
theorem keeps_statementOrError (h : l.Keeps (statement inner)) :
    l.Keeps (statementOrError inner) := by
  rw [statementOrError_eq]
  refine .get (fun _ _ => rfl) fun mark => .get (fun _ _ => rfl) fun before => ?_
  refine .bind keeps_currentSpan fun start => .bind h.attempt fun node => ?_
  cases node with
  | some node => exact .pure
  | none => exact keeps_afterStop

/-- The items of a block keep to it if each does. -/
theorem keeps_blockItems (h : l.Keeps (statementOrError inner)) : l.Keeps (blockItems inner) := by
  refine .iterate (fun items => .bind keeps_peek fun next => ?_) []
  split
  · exact .pure
  · exact .pure
  · exact .bind h fun item => .pure

/-! ## Programs -/

/-- Every production on every level keeps to the relation. -/
theorem keeps_level (levels : Nat) (production : Production) :
    l.Keeps (level levels production) := by
  induction levels generalizing production with
  | zero => exact .throw
  | succ levels ih =>
    refine keeps_nested ?_
    by_cases hitems : production = .blockItems
    · subst hitems
      have hstatement := keeps_composed statement_composed ih
      exact .inScope (keeps_blockItems (keeps_statementOrError hstatement))
    · exact keeps_composed (parse_composed hitems) ih

/-- So does an item of a program. -/
theorem keeps_item (levels : Nat) : l.Keeps (statementOrError (level levels)) :=
  keeps_statementOrError (keeps_composed statement_composed (keeps_level levels))

/-- So does one round of the program's loop. -/
theorem keeps_programRound {item : Parser Placed} (h : l.Keeps item) (items : List Placed) :
    l.Keeps (programRound item items) := by
  refine .bind keeps_peek fun next => ?_
  split
  · exact .pure
  · exact .bind keeps_reportSyntax fun _ => .bind keeps_passOver fun _ => .pure
  · refine .bind h.attempt fun node => ?_
    cases node with
    | some node => exact .pure
    | none => exact .pure

/-- A whole program keeps to the relation. -/
theorem keeps_program : l.Keeps program := by
  refine .read (fun _ _ => rfl) fun context => ?_
  refine .bind (.iterate (keeps_programRound (keeps_item _)) []) fun items => keeps_place

end

/-! ## What is said apart from versions -/

end Likeness

/-- Whether a report is about a feature that one version has and another one has not. -/
def isOfVersion (diagnostic : Diagnostic) : Bool :=
  diagnostic.code == .unsupportedFeature || diagnostic.code == .semanticWarning

/-- What is reported apart from the features of a version. -/
def besidesVersion (diagnostics : List Diagnostic) : List Diagnostic :=
  diagnostics.filter (!isOfVersion ·)

/-- The diagnostics besides those on the version are taken from each part of a list. -/
theorem besidesVersion_append (diagnostics more : List Diagnostic) :
    besidesVersion (diagnostics ++ more) = besidesVersion diagnostics ++ besidesVersion more :=
  List.filter_append ..

/-- Sorting and leaving out what is said about versions commute. -/
theorem besidesVersion_sorted (buffer : Diagnostics) :
    besidesVersion buffer.sorted = Diagnostics.sorted ⟨besidesVersion buffer.items⟩ :=
  Diagnostics.filter_sorted
    (fun identity => !(identity.1 == .unsupportedFeature || identity.1 == .semanticWarning)) buffer

section
variable {notes other : Notes} {span : Span} {feature : String} {fix : Option Fix}

/-- A feature of version 3 adds none to them. -/
theorem Notes.besidesVersion_requiring :
    besidesVersion (notes.requiring span feature).diagnostics.items =
      besidesVersion notes.diagnostics.items := by
  unfold Notes.requiring
  split
  · simp [Notes.push, Diagnostics.push, Notes.lacking, besidesVersion, isOfVersion]
  · rfl

/-- Neither does a deprecated feature. -/
theorem Notes.besidesVersion_deprecating :
    besidesVersion (notes.deprecating span feature fix).diagnostics.items =
      besidesVersion notes.diagnostics.items := by
  unfold Notes.deprecating
  split
  · rfl
  · simp [Notes.push, Diagnostics.push, Notes.outdated, besidesVersion, isOfVersion]

end

namespace Likeness

/-- Notes that say the same apart from the features of a version. -/
def besides : Likeness where
  Alike notes other :=
    besidesVersion other.diagnostics.items = besidesVersion notes.diagnostics.items
  push diagnostic h := by
    simp only [Notes.push, Diagnostics.push, besidesVersion_append, h]
  stating _ h := h
  requiring span feature h := by
    rwa [Notes.besidesVersion_requiring, Notes.besidesVersion_requiring]
  deprecating span feature fix h := by
    rwa [Notes.besidesVersion_deprecating, Notes.besidesVersion_deprecating]

/-- Notes that are equal. -/
def equal : Likeness where
  Alike notes other := other = notes
  push _ h := by rw [h]
  stating _ h := by rw [h]
  requiring _ _ h := by rw [h]
  deprecating _ _ _ h := by rw [h]

/-- Two runs that are to agree in everything are equal. -/
theorem Joins.eq {α : Type} {left right : EStateM.Result Stop State α}
    (h : equal.Joins left right) : right = left := by
  cases h with
  | ok hnotes => rw [show _ = _ from hnotes]; rfl
  | error hnotes => rw [show _ = _ from hnotes]; rfl

end Likeness

/-! ## A version of its own -/

section
variable {context : Context} {state : State} {inner : Level} {version : Version}

/-- A version statement at the start of the text does not look at the version in force. -/
theorem item_stated (hp : state.position = 0) (h : statedVersion? state.rest = some version)
    (inherited forced : Option Version) :
    ∃ node after, statementOrError inner context state = .ok node after ∧
      statementOrError inner (context.inheriting inherited)
        (state.noting ⟨state.diagnostics, forced⟩) = .ok node after := by
  obtain ⟨keyword, number, semicolon, rest, hr, hk, hn, hs, hv⟩ := statedVersion?_eq_some.1 h
  obtain ⟨node, after, hok, -⟩ : ∃ node after,
      versionStatement context state = .ok node after ∧ _ :=
    versionStatement_ok h
  have hp' : (state.noting ⟨state.diagnostics, forced⟩).position = 0 := hp
  have hr' : (state.noting ⟨state.diagnostics, forced⟩).rest =
      keyword :: number :: semicolon :: rest := hr
  have hright : versionStatement (context.inheriting inherited)
      (state.noting ⟨state.diagnostics, forced⟩) = versionStatement context state := by
    rw [versionStatement_stated hp hr hk hn hs hv, versionStatement_stated hp' hr' hk hn hs hv]
    rfl
  refine ⟨node, after, statementOrError_ok ?_, statementOrError_ok ?_⟩
  · rw [statement_of_keyword hr hk]
    exact hok
  · rw [statement_of_keyword hr' hk]
    exact hright.trans hok

/-- A statement that is read is one more. -/
theorem programRound_item {item : Parser Placed} {items : List Placed} {context : Context}
    {state after : State} {node : Placed} {token : Token} {rest : List Token}
    (hr : state.rest = token :: rest) (hne : token.kind ≠ Symbol.rightBrace)
    (h : item context state = .ok node after) :
    programRound item items context state = .ok (.again (items ++ [node])) after := by
  have hpeek : peek context state = .ok (some token.kind) state := by
    simp only [peek, bind_of_ok (current_eq context state), hr]
    rfl
  have hattempt : attempt item context state = .ok (some node) after := by
    simp only [attempt, h]
  unfold programRound
  rw [bind_of_ok hpeek]
  generalize hnext : some token.kind = next
  split
  · cases hnext
  · exact absurd (Option.some.inj hnext) hne
  · rw [bind_of_ok hattempt]
    rfl

/-- A program goes on behind its first statement. -/
theorem program_of_item {context : Context} {state after : State} {node : Placed} {token : Token}
    {rest : List Token} (hr : state.rest = token :: rest) (hne : token.kind ≠ Symbol.rightBrace)
    (h : statementOrError (level (context.options.maxDepth + 1)) context state = .ok node after) :
    program context state =
      (iterateAlong (programRound (statementOrError (level (context.options.maxDepth + 1)))) rest
          [node] >>= fun items =>
        place (.program items) ⟨context.source, 0, min (Text.width context.text) maxOffset⟩)
      context after := by
  have hitems : programItems (level (context.options.maxDepth + 1)) context state =
      iterateAlong (programRound (statementOrError (level (context.options.maxDepth + 1)))) rest
        [node] context after := by
    show iterateAlong (programRound (statementOrError (level (context.options.maxDepth + 1))))
      state.rest [] context state = _
    rw [hr, iterateAlong, bind_of_ok (programRound_item hr hne h)]
    rfl
  unfold program
  rw [read_bind]
  generalize programItems (level (context.options.maxDepth + 1)) = first at hitems
  generalize iterateAlong (programRound (statementOrError (level (context.options.maxDepth + 1))))
    rest [node] = second at hitems
  cases hlast : second context after with
  | ok items last => rw [bind_of_ok (hitems.trans hlast), bind_of_ok hlast]
  | error failure last => rw [bind_of_error (hitems.trans hlast), bind_of_error hlast]

/-- A program that states a version at its start does not look at the inherited one. -/
theorem program_stated (hp : state.position = 0) (h : statedVersion? state.rest = some version)
    (inherited forced : Option Version) :
    program (context.inheriting inherited) (state.noting ⟨state.diagnostics, forced⟩) =
      program context state := by
  let item : Parser Placed := statementOrError (level (context.options.maxDepth + 1))
  obtain ⟨node, after, hleft, hright⟩ : ∃ node after, item context state = .ok node after ∧
      item (context.inheriting inherited) (state.noting ⟨state.diagnostics, forced⟩) =
        .ok node after := item_stated hp h inherited forced
  obtain ⟨keyword, number, semicolon, rest, hr, hk, -⟩ := statedVersion?_eq_some.1 h
  have hne : keyword.kind ≠ Symbol.rightBrace := by
    rw [hk]
    nofun
  have hr' : (state.noting ⟨state.diagnostics, forced⟩).rest =
      keyword :: number :: semicolon :: rest := hr
  rw [program_of_item hr hne hleft, program_of_item hr' hne hright]
  -- Behind the statement the two are in one state.
  have hbehind : Likeness.equal.Keeps (iterateAlong (programRound (statementOrError
      (level (context.options.maxDepth + 1)))) (number :: semicolon :: rest) [node] >>= fun items =>
        place (.program items) ⟨context.source, 0, min (Text.width context.text) maxOffset⟩) := by
    refine .bind (.iterateAlong (fun items => ?_) _ _) fun items => Likeness.keeps_place
    exact Likeness.keeps_programRound (Likeness.keeps_item _) items
  exact (hbehind context inherited after after.notes rfl).eq

end

/-! ## Parses -/

section
variable {source : SourceId} {text : List Char} {options : ParseOptions} {output : ParseOutput}

/-- A version statement that is the first item of a tree and stands at the first token is stated
there. -/
theorem stated_of_pragma {stated : Version} {span : Span}
    (h : parse source text options = .ok output)
    (hitem : output.tree.items.head?.bind output.tree.node? = some ⟨.versionPragma stated, span⟩)
    (hfirst : (startState source text options).rest.head?.map Token.kind =
      some Keyword.kwVersion) :
    statedVersion? (startState source text options).rest = some stated := by
  rcases parse_portioned source text options with
    ⟨output', portions, last, hparse, hportions, -, hnodes, -⟩ | ⟨_, herror, -⟩
  · obtain rfl := Except.ok.inj (hparse.symm.trans h)
    let reading := Reading.ofText source text options
    have htaken : Portioned (statementOrError (level (options.maxDepth + 1))) reading.context
      (startState source text options) portions last := hportions
    have hleading := htaken.leading id (.nil (Reading.ready_startState source text options) rfl)
    have hsame := (stated_eq_iff (startState source text options).rest).2 fun _ => by
      rw [hfirst]
      nofun
    rw [hsame]
    refine hleading.symm.trans ?_
    cases hitems : output'.tree.items with
    | nil =>
      rw [hitems] at hitem
      cases hitem
    | cons id ids =>
      rw [hitems] at hitem hnodes
      have hnode : output'.tree.node? id = some ⟨.versionPragma stated, span⟩ := hitem
      cases hportioned : portions.filterMap Portion.item? with
      | nil =>
        rw [hportioned] at hnodes
        cases hnodes
      | cons item items =>
        rw [hportioned, List.map_cons, List.map_cons, hnode] at hnodes
        have hkind : item.kind = .versionPragma stated :=
          (congrArg Node.kind (Option.some.inj (List.cons.inj hnodes).1)).symm
        simp only [List.head?_cons, Option.bind_some, hkind]
        rfl
  · cases h.symm.trans herror

/-- Whatever version a text inherits, its parse comes to the same tree, and reports the same apart
from the features of a version. -/
theorem exists_parse_inheriting (h : parse source text options = .ok output)
    (inherited : Option Version) :
    ∃ other, parse source text { options with defaultVersion := inherited } = .ok other ∧
      other.tree = output.tree ∧
      besidesVersion other.diagnostics = besidesVersion output.diagnostics := by
  obtain ⟨root, state, hprogram, -⟩ := exists_of_parse_ok h
  have hjoins := Likeness.keeps_program (l := .besides) ⟨source, text, options⟩ inherited
    (startState source text options) ⟨{}, inherited⟩ rfl
  rw [hprogram] at hjoins
  generalize hright : program (Context.inheriting ⟨source, text, options⟩ inherited)
    ((startState source text options).noting ⟨{}, inherited⟩) = right at hjoins
  cases hjoins with
  | @ok _ _ notes halike =>
    obtain ⟨hshown, hother⟩ := parse_of_program hprogram hright rfl h
    refine ⟨_, hother, rfl, ?_⟩
    have hsame : besidesVersion notes.diagnostics.items = besidesVersion state.diagnostics.items :=
      halike
    rw [hshown, besidesVersion_sorted, besidesVersion_sorted, besidesVersion_append,
      besidesVersion_append]
    exact congrArg (fun reports => Diagnostics.sorted ⟨_ ++ reports⟩) hsame

/-- Whatever version a text inherits, its parse crashes alike. -/
theorem parse_inheriting_crash {failure : Crash} (h : parse source text options = .error failure)
    (ho : Overflows ⟨source, text, options⟩ (startState source text options).rest failure)
    (inherited : Option Version) :
    parse source text { options with defaultVersion := inherited } = .error failure := by
  obtain ⟨state, hprogram⟩ := exists_of_parse_error h ho
  have hjoins := Likeness.keeps_program (l := .besides) ⟨source, text, options⟩ inherited
    (startState source text options) ⟨{}, inherited⟩ rfl
  rw [hprogram] at hjoins
  generalize hright : program (Context.inheriting ⟨source, text, options⟩ inherited)
    ((startState source text options).noting ⟨{}, inherited⟩) = right at hjoins
  cases hjoins with
  | error => exact parse_of_crash hright

/-- The parse of a text that states a version at its start does not look at the inherited one. -/
theorem parse_stated {version : Version}
    (h : statedVersion? (startState source text options).rest = some version)
    (inherited : Option Version) :
    parse source text { options with defaultVersion := inherited } = parse source text options := by
  let context : Context := ⟨source, text, options⟩
  let start : State := startState source text options
  have hprogram : program (context.inheriting inherited)
      (start.noting ⟨start.diagnostics, inherited⟩) =
    program context start := program_stated rfl h inherited inherited
  rw [parse_eq, parse_eq]
  rw [show program ⟨source, text, { options with defaultVersion := inherited }⟩
      (startState source text { options with defaultVersion := inherited }) =
    program ⟨source, text, options⟩ (startState source text options) from hprogram]

end

/-- Two parses that inherit different versions come to the same tree with the same comments, and
what they report is the same apart from the features of a version. If the first item is a version
statement that stands at the first token, they do not differ at all. Where the machine numbers do
not suffice for the one, they do not for the other. -/
theorem parse_inherits (source : SourceId) (text : List Char) (options : ParseOptions)
    (inherited : Option Version) :
    (∃ output other, parse source text options = .ok output ∧
      parse source text { options with defaultVersion := inherited } = .ok other ∧
      other.tree = output.tree ∧
      besidesVersion other.diagnostics = besidesVersion output.diagnostics ∧
      ∀ stated span,
        output.tree.items.head?.bind output.tree.node? = some ⟨.versionPragma stated, span⟩ →
        (startState source text options).rest.head?.map Token.kind = some Keyword.kwVersion →
        other = output) ∨
    ∃ failure, parse source text options = .error failure ∧
      parse source text { options with defaultVersion := inherited } = .error failure ∧
      Overflows ⟨source, text, options⟩ (startState source text options).rest failure := by
  rcases parse_completes source text options with ⟨-, -, output, -, hparse, -⟩ |
    ⟨failure, herror, hover⟩
  · left
    obtain ⟨other, hother, htree, hbesides⟩ := exists_parse_inheriting hparse inherited
    refine ⟨output, other, hparse, hother, htree, hbesides, fun stated span hitem hfirst => ?_⟩
    have hsame := parse_stated (stated_of_pragma hparse hitem hfirst) inherited
    exact Except.ok.inj (hother.symm.trans (hsame.trans hparse))
  · exact .inr ⟨failure, herror, parse_inheriting_crash herror hover inherited, hover⟩

end OpenQasm.Grammar
