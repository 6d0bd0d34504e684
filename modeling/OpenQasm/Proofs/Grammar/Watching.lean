import OpenQasm.Proofs.Grammar.Calls
import OpenQasm.Proofs.Grammar.Productions

/-!
# Watching statements

Whatever is watched, a parser does the same until a watched statement begins. So a parse that
stops at some watched statement stops there if that one alone is watched, and what is begun within
a statement that the parse begins is begun by the parse.
-/

namespace OpenQasm.Grammar

/-- No statement is watched. -/
def nothing : Watch := fun _ _ => False

/-- With the statements of `watch` watched, the reading of a statement stops at the statement or at
one within it. -/
def StopsAt (context : Context) (watch : Watch) (levels : Nat) (call : State) : Prop :=
  ∃ after, watching watch levels (levelWith (watching watch) levels) context call =
    .error (.crash watched) after

section
variable {α β γ : Type} {context : Context} {watch : Watch} {levels : Nat} {call state : State}

/-- A statement that is watched stops where it is called. -/
theorem StopsAt.of_watch (h : watch levels call) : StopsAt context watch levels call :=
  ⟨call, watching_of h⟩

/-- A parser that heeds what is watched does what it does with nothing watched, or there is a
statement on the way, which is watched, and the parser stops whenever it is stopped there. -/
def Heeds (parser : Watch → Parser α) : Prop :=
  ∀ context watch state, parser watch context state = parser nothing context state ∨
    ∃ levels call, watch levels call ∧ ∀ other, StopsAt context other levels call →
      ∃ after, parser other context state = .error (.crash watched) after

section
variable {parser : Watch → Parser α} {next : Watch → α → Parser β}

/-- A parser that heeds what is watched does the same as without, or stops. -/
theorem Heeds.same_or_stops (h : Heeds parser) (context : Context) (watch : Watch)
    (state : State) : parser watch context state = parser nothing context state ∨
      ∃ after, parser watch context state = .error (.crash watched) after := by
  rcases h context watch state with hsame | ⟨levels, call, hw, hstop⟩
  · exact .inl hsame
  · exact .inr (hstop watch (.of_watch hw))

/-- A parser that reads no statement heeds everything. -/
theorem Heeds.const (parser : Parser α) : Heeds fun _ => parser := fun _ _ _ => .inl rfl

/-- Two parsers that heed do so in sequence. -/
theorem Heeds.bind (h : Heeds parser) (hn : ∀ value, Heeds fun watch => next watch value) :
    Heeds fun watch => parser watch >>= next watch := by
  intro context watch state
  rcases h context watch state with hsame | ⟨levels, call, hw, hstop⟩
  · cases hresult : parser nothing context state with
    | error failure after =>
      exact .inl ((bind_of_error (hsame.trans hresult)).trans (bind_of_error hresult).symm)
    | ok value middle =>
      dsimp only
      rw [bind_of_ok (hsame.trans hresult), bind_of_ok hresult]
      refine (hn value context watch middle).imp_right ?_
      rintro ⟨levels, call, hw, hstop⟩
      refine ⟨levels, call, hw, fun other ho => ?_⟩
      -- The first parser stops as well, or it leads to the statement.
      rcases h.same_or_stops context other state with hother | ⟨after, hother⟩
      · rw [bind_of_ok (hother.trans hresult)]
        exact hstop other ho
      · exact ⟨after, bind_of_error hother⟩
  · exact .inr ⟨levels, call, hw, fun other ho =>
      (hstop other ho).imp fun _ hafter => bind_of_error hafter⟩

/-- Nothing is watched in the first of two parsers. -/
theorem Heeds.after {first : Parser α} (hn : ∀ value, Heeds fun watch => next watch value) :
    Heeds fun watch => first >>= next watch := .bind (.const first) hn

/-- A choice heeds if both of its sides do. -/
theorem Heeds.ite {c : Prop} [Decidable c] {yes no : Watch → Parser α} (hy : Heeds yes)
    (hn : Heeds no) : Heeds fun watch => if c then yes watch else no watch := by
  by_cases hc : c
  · simpa only [if_pos hc] using hy
  · simpa only [if_neg hc] using hn

/-- What is done with the result and the state of a parser does not matter, if crashes stay. -/
theorem Heeds.wrap (h : Heeds parser) (enter : State → State)
    (wrap : EStateM.Result Stop State α → EStateM.Result Stop State β)
    (hw : ∀ failure after, ∃ after', wrap (.error (.crash failure) after) =
      .error (.crash failure) after') :
    Heeds fun watch context state => wrap (parser watch context (enter state)) := by
  intro context watch state
  rcases h context watch (enter state) with hsame | ⟨levels, call, hwatch, hstop⟩
  · exact .inl (congrArg wrap hsame)
  · refine .inr ⟨levels, call, hwatch, fun other ho => ?_⟩
    obtain ⟨after, hafter⟩ := hstop other ho
    obtain ⟨after', hafter'⟩ := hw watched after
    exact ⟨after', (congrArg wrap hafter).trans hafter'⟩

/-- A result with its state changed. -/
def leaving (leave : State → State) : EStateM.Result Stop State α → EStateM.Result Stop State α
  | .ok value after => .ok value (leave after)
  | .error failure after => .error failure (leave after)

/-- A result whose stop is caught. -/
def caught : EStateM.Result Stop State α → EStateM.Result Stop State (Option α)
  | .ok value after => .ok (some value) after
  | .error .recovered after => .ok none after
  | .error (.crash failure) after => .error (.crash failure) after

/-- Between two changes a parser heeds. -/
theorem Heeds.around (h : Heeds parser) (enter leave : State → State) :
    Heeds fun watch => around enter leave (parser watch) :=
  h.wrap enter (leaving leave) fun _ after => ⟨leave after, rfl⟩

/-- A parser heeds also when its failure is caught: being stopped is not caught. -/
theorem Heeds.attempt (h : Heeds parser) : Heeds fun watch => attempt (parser watch) :=
  h.wrap id caught fun _ after => ⟨after, rfl⟩

/-- A loop heeds if its rounds do. -/
theorem Heeds.iterate {round : Watch → α → Parser (Turn α β)}
    (h : ∀ value, Heeds fun watch => round watch value) (value : α) :
    Heeds fun watch => iterate (round watch) value := by
  refine .after fun start => ?_
  generalize start.rest = tokens
  induction tokens generalizing value with
  | nil =>
    refine .bind (h value) fun turn => ?_
    cases turn with
    | done result => exact .const _
    | again value => exact .const _
  | cons token tokens ih =>
    refine .bind (h value) fun turn => ?_
    cases turn with
    | done result => exact .const _
    | again value => exact ih value

/-- One level further in, a parser heeds. -/
theorem Heeds.nested (h : Heeds parser) : Heeds fun watch => nested (parser watch) :=
  .after fun _ => .after fun _ => .ite (.const _) (h.around _ _)

end

/-! ## Productions -/

variable {inner : Watch → Level}

/-- The productions of a level heed what is watched. -/
def HeedsLevel (inner : Watch → Level) : Prop :=
  ∀ production, Heeds fun watch => inner watch production

/-- What is composed of the productions of a level heeds what they heed. -/
theorem Composed.heeds {has : Feature → Prop} {parser : Level → Parser α}
    (hc : Composed has parser) (h : HeedsLevel inner) :
    Heeds fun watch => parser (inner watch) := by
  induction hc with
  | inner production => exact h production
  | blockItems => exact (h .blockItems).around _ _
  | bind _ _ ih ihn => exact .bind ih ihn
  | looking _ ih =>
    exact fun context watch state => ih (state.view context) context watch state
  | iterate _ ih => exact .iterate ih _
  | blockOpen _ ih | inScope _ _ ih => exact ih.around _ _
  | _ => exact .const _

/-- A statement heeds if the productions below do. -/
theorem statement_heeds (h : HeedsLevel inner) : Heeds fun watch => statement (inner watch) :=
  statement_composed.heeds h

/-- So does the node left in its place. -/
theorem statementOrError_heeds (h : HeedsLevel inner) :
    Heeds fun watch => statementOrError (inner watch) := by
  refine .after fun mark => .after fun before => .after fun start => ?_
  exact .bind (.attempt (statement_heeds h)) fun node => .const _

/-! ## Readers -/

/-- With nothing watched, statements are read as ever. -/
theorem watching_nothing : watching nothing = plainReader := by
  funext levels inner context state
  exact watching_of_not id

/-- So are all productions. -/
theorem levelWith_nothing (levels : Nat) : levelWith (watching nothing) levels = level levels := by
  rw [watching_nothing, levelWith_plain]

/-- The reader that watches statements heeds which are watched, if the productions below do. -/
theorem watching_heeds (h : HeedsLevel fun watch => levelWith (watching watch) levels) :
    Heeds fun watch => watching watch levels (levelWith (watching watch) levels) := by
  intro context watch state
  by_cases hw : watch levels state
  · exact .inr ⟨levels, state, hw, fun _ ho => ho⟩
  · have hnone : watching nothing levels (levelWith (watching nothing) levels) context state =
        statementOrError (levelWith (watching nothing) levels) context state := watching_of_not id
    dsimp only
    rw [watching_of_not hw, hnone]
    refine (statementOrError_heeds h context watch state).imp_right ?_
    rintro ⟨levels', call, hw', hstop⟩
    refine ⟨levels', call, hw', fun other ho => ?_⟩
    by_cases hother : other levels state
    · exact ⟨state, watching_of hother⟩
    · rw [watching_of_not hother]
      exact hstop other ho

/-- The items of a block heed if each does. -/
theorem blockItemsWith_heeds {item : Watch → Parser Placed} (h : Heeds item) :
    Heeds fun watch => blockItemsWith (item watch) := by
  refine .iterate (fun items => .after fun next => ?_) []
  split
  · exact .const _
  · exact .const _
  · exact .bind h fun item => .const _

/-- Every level heeds. -/
theorem levelWith_heeds (levels : Nat) :
    HeedsLevel fun watch => levelWith (watching watch) levels := by
  induction levels with
  | zero => exact fun _ => .const _
  | succ levels ih =>
    intro production
    refine .nested ?_
    by_cases hitems : production = .blockItems
    · subst hitems
      exact (blockItemsWith_heeds (watching_heeds ih)).around _ _
    · simp only [parseWith_of_ne hitems]
      exact (parse_composed hitems).heeds ih

/-- So does a whole program. -/
theorem programWith_heeds : Heeds fun watch => programWith (watching watch) := by
  refine .after fun context => .bind (.iterate (fun items => .after fun next => ?_) [])
    fun items => .const _
  split
  · exact .const _
  · exact .const _
  · refine .bind (.attempt (watching_heeds (levelWith_heeds _))) fun item => ?_
    cases item <;> exact .const _

/-! ## What a parse begins -/

section
variable {source : SourceId} {text : List Char} {options : ParseOptions} {levels' : Nat}
  {call' : State}

/-- With nothing watched, a parse does not stop at a statement. -/
theorem programWith_nothing_ne {after : State} :
    programWith (watching nothing) ⟨source, text, options⟩ (startState source text options) ≠
      .error (.crash watched) after := by
  intro h
  have hruns := Reading.programWith_runs
    (show (Reading.ofText source text options).Reads plainReader from Reading.plainReader_reads id)
    (Reading.ready_startState source text options) rfl
  unfold Reading.Runs at hruns
  rw [← watching_nothing, show (Reading.ofText source text options).context =
    ⟨source, text, options⟩ from rfl, h] at hruns
  have hcrash : Overflows ⟨source, text, options⟩ (startState source text options).rest watched :=
    hruns
  cases hcrash

/-- A parse stops where watched statements are that it begins, or within which there are some. -/
theorem Begins.stops (h : Begins source text options levels call)
    (hw : StopsAt ⟨source, text, options⟩ watch levels call) :
    ∃ after, programWith (watching watch) ⟨source, text, options⟩
      (startState source text options) = .error (.crash watched) after := by
  obtain ⟨after, hafter⟩ := h
  rcases programWith_heeds ⟨source, text, options⟩ (only levels call)
    (startState source text options) with hsame | ⟨_, _, ⟨rfl, rfl⟩, hstop⟩
  · exact absurd (hsame.symm.trans hafter) programWith_nothing_ne
  · exact hstop _ hw

/-- What is begun within a statement that a parse begins is begun by the parse. -/
theorem Begins.within (h : Begins source text options levels call)
    (hw : StopsAt ⟨source, text, options⟩ (only levels' call') levels call) :
    Begins source text options levels' call' := h.stops hw

/-- If no watched statement is begun within a statement, watching does not matter to it. -/
theorem Begins.watching_eq (h : Begins source text options levels call)
    (hn : ∀ levels call, Begins source text options levels call → ¬watch levels call) :
    watching watch levels (levelWith (watching watch) levels) ⟨source, text, options⟩ call =
      statementOrError (level levels) ⟨source, text, options⟩ call := by
  rcases watching_heeds (levelWith_heeds levels) ⟨source, text, options⟩ watch call with
    hsame | ⟨levels', call', hw, hstop⟩
  · refine hsame.trans ?_
    dsimp only
    rw [levelWith_nothing, watching_nothing]
    rfl
  · exact absurd hw (hn _ _ (h.within (hstop _ (.of_watch ⟨rfl, rfl⟩))))

end

end

end OpenQasm.Grammar
