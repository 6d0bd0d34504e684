import OpenQasm.Proofs.Grammar.Staying

/-!
# What parsers report

Parsers add reports and take none back, however they end: what was reported about a statement that
stopped stays when the statement is dropped. Every report has the severity of its code.
-/

namespace OpenQasm.Grammar

/-- Reports are added to those of before, each with the severity of its code. -/
def Reported (before after : State) : Prop :=
  ∃ more, after.diagnostics.items = before.diagnostics.items ++ more ∧
    ∀ diagnostic ∈ more, diagnostic.severity = diagnostic.code.severity

section
variable {α β : Type} {before middle after : State}

/-- The same diagnostics are no fewer. -/
theorem Reported.same (h : after.diagnostics = before.diagnostics) : Reported before after :=
  ⟨[], by rw [h, List.append_nil], fun _ hm => nomatch hm⟩

/-- Diagnostics that stay twice stay. -/
theorem Reported.trans (h : Reported before middle) (h' : Reported middle after) :
    Reported before after := by
  obtain ⟨more, hmore, hcodes⟩ := h
  obtain ⟨more', hmore', hcodes'⟩ := h'
  refine ⟨more ++ more', by rw [hmore', hmore, List.append_assoc], fun diagnostic hd => ?_⟩
  exact (List.mem_append.1 hd).elim (hcodes diagnostic) (hcodes' diagnostic)

/-- One diagnostic more, with the severity of its code. -/
theorem Reported.push {diagnostic : Diagnostic}
    (h : after.diagnostics = before.diagnostics.push diagnostic)
    (hd : diagnostic.severity = diagnostic.code.severity) : Reported before after :=
  ⟨[diagnostic], by rw [h, Diagnostics.items_push], fun _ hm => List.mem_singleton.1 hm ▸ hd⟩

/-- The diagnostics before come first among those after. -/
theorem Reported.isPrefix (h : Reported before after) :
    before.diagnostics.items <+: after.diagnostics.items := by
  obtain ⟨more, hmore, -⟩ := h
  exact ⟨more, hmore.symm⟩

/-- Reports stay. -/
theorem Reported.mem {diagnostic : Diagnostic} (h : Reported before after)
    (hd : diagnostic ∈ before.diagnostics.items) : diagnostic ∈ after.diagnostics.items :=
  h.isPrefix.subset hd

/-- A parser adds reports only, however it ends. -/
def Reports (parser : Parser α) : Prop :=
  ∀ context state, Reported state (ending (parser context state))

/-- Nothing that a production does takes a report back. -/
theorem stable_reported (has : Feature → Prop) : Stable has Reported where
  same _ _ _ h := .same h
  trans := .trans
  pass n state := by
    induction n generalizing state with
    | zero => exact .same rfl
    | succ n ih =>
      rw [State.pass]
      split
      · exact .same rfl
      · exact Reported.trans (.same rfl) (ih _)
  push _ hd := .push rfl hd
  place _ _ := .same rfl
  literal _ _ _ := .same rfl
  truncate _ _ := .same rfl
  openBlock h := (Reported.trans (.same rfl) h).trans (.same rfl)

/-- Whatever the pieces of the grammar do, diagnostics are only added. -/
theorem reported_stable : Stable (fun _ => True) Reported := stable_reported _

namespace Reports

variable {parser : Parser α} {next : α → Parser β}

/-- An answer reports nothing. -/
theorem pure {value : α} : Reports (pure value : Parser α) := fun _ => Stays.pure reported_stable

/-- Nor does a failure. -/
theorem throw {stop : Stop} : Reports (throw stop : Parser α) :=
  fun _ => Stays.throw reported_stable

/-- Nor does a change that leaves the diagnostics as they are. -/
theorem modify {change : State → State}
    (h : ∀ state, (change state).diagnostics = state.diagnostics) :
    Reports (modify change : Parser Unit) := fun _ state => .same (h state)

/-- What goes on after a parser takes nothing back. -/
theorem behind (hn : ∀ value, Reports (next value)) (context : Context) (state : State) :
    Reported (ending (parser context state)) (ending ((parser >>= next) context state)) :=
  Stays.behind reported_stable fun value middle _ => hn value context middle

/-- Two parsers in sequence report only more. -/
theorem bind (h : Reports parser) (hn : ∀ value, Reports (next value)) :
    Reports (parser >>= next) :=
  fun context => Stays.bind reported_stable (h context) fun value => hn value context

/-- Tokens are passed without a report. -/
theorem passOver {n : Nat} : Reports (passOver n) := fun _ => Stays.passOver reported_stable

/-- A syntax error is one more report or none. -/
theorem reportSyntax {message : String} : Reports (reportSyntax message) :=
  fun _ => Stays.reportSyntax reported_stable

/-- A node is placed without a report. -/
theorem place {kind : NodeKind Placed} {span : Span} : Reports (place kind span) := by
  intro context state
  unfold Grammar.place
  rw [get_bind]
  cases state.builder.push (kind.map Placed.id) span <;> exact .same rfl

/-- So is a node that began earlier. -/
theorem placeFrom {start : Span} {kind : NodeKind Placed} : Reports (placeFrom start kind) :=
  .bind (fun _ => Stays.spanFrom reported_stable) fun _ => .place

/-- A loop along given tokens reports only more. -/
theorem iterateAlong {round : α → Parser (Turn α β)} (h : ∀ value, Reports (round value))
    (tokens : List Token) (value : α) : Reports (iterateAlong round tokens value) :=
  fun context => Stays.iterateAlong reported_stable (fun value => h value context) tokens value

/-- So does a loop. -/
theorem iterate {round : α → Parser (Turn α β)} (h : ∀ value, Reports (round value)) (value : α) :
    Reports (iterate round value) :=
  fun context => Stays.iterate reported_stable (fun value => h value context) value

/-- So does a parser one level further in. -/
theorem nested (h : Reports parser) : Reports (nested parser) :=
  fun context => Stays.nested reported_stable (h context)

end Reports

/-! ## Productions -/

variable {inner : Level} {reader : Reader}

/-- What is composed of productions that add reports only does so. -/
theorem Composed.reports {has : Feature → Prop} {parser : Level → Parser α}
    (hc : Composed has parser) (h : ∀ production, Reports (inner production)) :
    Reports (parser inner) := fun context =>
  hc.stays (stable_reported has) (fun production _ => h production context)
    (.blockOpen (stable_reported has) (h .blockItems context))

/-- So does what is done about a failure. -/
theorem afterStop_reports {mark before : Nat} {start : Span} :
    Reports (afterStop mark before start) := fun _ => afterStop_stays reported_stable

/-- So does a statement, or the node left in its place. -/
theorem statementOrError_reports (h : Reports (statement inner)) :
    Reports (statementOrError inner) := fun context =>
  statementOrError_stays reported_stable (h context)

/-- One round of the loop through the statements of a block. -/
theorem blockRound_reports {item : Parser Placed} (h : Reports item) (items : List Placed) :
    Reports (do
      match ← peek with
      | none | some (.symbol .rightBrace) => return Turn.done items
      | some _ => return .again (items ++ [← item])) := fun context =>
  blockRound_stays reported_stable (h context) items

/-- One round of the program's loop reports only more. -/
theorem programRound_reports {item : Parser Placed} (h : Reports item) (items : List Placed) :
    Reports (programRound item items) := fun context =>
  programRound_stays reported_stable (h context) items

/-- So does every production. -/
theorem parseWith_reports {item : Parser Placed} (hi : Reports item)
    (h : ∀ production, Reports (inner production)) (production : Production) :
    Reports (production.parseWith item inner) := by
  by_cases hitems : production = .blockItems
  · subst hitems
    exact fun context => Stays.inScope reported_stable
      (Reports.iterate (blockRound_reports hi) [] context)
  · rw [parseWith_of_ne hitems]
    exact (parse_composed hitems).reports h

/-- The productions of all levels add reports only, if the reader of statements does. -/
theorem levelWith_reports (hreader : ∀ levels inner, (∀ production, Reports (inner production)) →
    Reports (reader levels inner)) (levels : Nat) (production : Production) :
    Reports (levelWith reader levels production) := by
  induction levels generalizing production with
  | zero => exact fun context => Stays.throw reported_stable
  | succ levels ih => exact .nested (parseWith_reports (hreader levels _ ih) ih production)

/-- A program adds reports only, if the reader of statements does. -/
theorem programWith_reports (hreader : ∀ levels inner,
    (∀ production, Reports (inner production)) → Reports (reader levels inner)) :
    Reports (programWith reader) := by
  refine .bind (fun _ => Stays.read reported_stable) fun context => ?_
  refine .bind (.iterate (programRound_reports ?_) []) fun _ => .place
  exact hreader _ _ (levelWith_reports hreader _)

/-- So does the reader of statements. -/
theorem plainReader_reports (levels : Nat) (inner : Level)
    (h : ∀ production, Reports (inner production)) : Reports (plainReader levels inner) :=
  statementOrError_reports (statement_composed.reports h)

/-- So does every production on every level. -/
theorem level_reports (levels : Nat) (production : Production) :
    Reports (level levels production) := by
  rw [← levelWith_plain]
  exact levelWith_reports plainReader_reports levels production

/-- So does an item of a program. -/
theorem item_reports (levels : Nat) : Reports (statementOrError (level levels)) :=
  plainReader_reports levels _ (level_reports levels)

end

end OpenQasm.Grammar
