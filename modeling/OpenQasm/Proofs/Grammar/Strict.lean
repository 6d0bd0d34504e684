import OpenQasm.Proofs.Grammar.Silence

/-!
# Reading without recovery

What the grammar without recovery reads is read by the grammar in the same way: as no statement of
it has failed, there was nothing to recover from. So all that is known of the productions holds of
what they read here, and nothing has to be said about what becomes of failures.
-/

namespace OpenQasm.Grammar

section
variable {α β : Type} {context : Context}

/-- Whatever `strict` reads, the parser reads in the same way. -/
def Subsumes (context : Context) (parser strict : Parser α) : Prop :=
  ∀ state value after, strict context state = .ok value after →
    parser context state = .ok value after

namespace Subsumes

variable {parser strict : Parser α} {next next' : α → Parser β}

/-- Every parser subsumes itself. -/
theorem refl (parser : Parser α) : Subsumes context parser parser := fun _ _ _ hok => hok

/-- Two parsers in sequence subsume. -/
theorem bind (h : Subsumes context parser strict)
    (hn : ∀ value, Subsumes context (next value) (next' value)) :
    Subsumes context (parser >>= next) (strict >>= next') := by
  intro state value after hok
  cases hfirst : strict context state with
  | ok first middle =>
    rw [bind_of_ok hfirst] at hok
    rw [bind_of_ok (h state first middle hfirst)]
    exact hn first middle value after hok
  | error failure middle =>
    rw [bind_of_error hfirst] at hok
    cases hok

/-- A parser subsumes between two changes. -/
theorem around {enter leave : State → State} (h : Subsumes context parser strict) :
    Subsumes context (around enter leave parser) (around enter leave strict) := by
  intro state value after hok
  unfold Grammar.around at *
  cases hinside : strict context (enter state) with
  | ok inside middle =>
    rw [hinside] at hok
    rw [h _ _ _ hinside]
    exact hok
  | error failure middle =>
    rw [hinside] at hok
    cases hok

/-- A loop subsumes if its rounds do. -/
theorem iterate {round round' : α → Parser (Turn α β)}
    (h : ∀ value, Subsumes context (round value) (round' value)) (value : α) :
    Subsumes context (iterate round value) (iterate round' value) := by
  refine .bind (.refl _) fun state => ?_
  generalize state.rest = tokens
  induction tokens generalizing value with
  | nil =>
    refine .bind (h value) fun turn => ?_
    cases turn <;> exact .refl _
  | cons token tokens ih =>
    refine .bind (h value) fun turn => ?_
    cases turn with
    | done result => exact .refl _
    | again value => exact ih value

/-- A choice subsumes if both of its sides do. -/
theorem ite {c : Prop} [Decidable c] {yes no yes' no' : Parser α}
    (hy : Subsumes context yes yes') (hn : Subsumes context no no') :
    Subsumes context (if c then yes else no) (if c then yes' else no') := by
  split
  · exact hy
  · exact hn

/-- One level further in, a parser subsumes. -/
theorem nested (h : Subsumes context parser strict) :
    Subsumes context (nested parser) (nested strict) :=
  .bind (.refl _) fun _ => .bind (.refl _) fun _ => .ite (.refl _) h.around

end Subsumes

variable {inner inner' : Level}

/-- What is composed of the pieces subsumes if the levels below do. -/
theorem Composed.subsumes {has : Feature → Prop} {parser : Level → Parser α}
    (hc : Composed has parser)
    (h : ∀ production, Subsumes context (inner production) (inner' production)) :
    Subsumes context (parser inner) (parser inner') := by
  induction hc with
  | inner production => exact h production
  | blockItems => exact (h .blockItems).around
  | bind _ _ ih ihn => exact .bind ih ihn
  | looking _ ih => exact fun state => ih (state.view context) state
  | iterate _ ih => exact .iterate ih _
  | blockOpen _ ih | inScope _ _ ih => exact ih.around
  | _ => exact .refl _

/-- A statement that is read leaves nothing to recover from. -/
theorem statementOrError_subsumes
    (h : ∀ production, Subsumes context (inner production) (inner' production)) :
    Subsumes context (statementOrError inner) (statement inner') := fun state node after hok =>
  statementOrError_ok (statement_composed.subsumes h state node after hok)

/-- The items of a block subsume if each does. -/
theorem blockItemsWith_subsumes {item item' : Parser Placed} (h : Subsumes context item item') :
    Subsumes context (blockItemsWith item) (blockItemsWith item') := by
  refine .iterate (fun items => .bind (.refl _) fun next => ?_) []
  split
  · exact .refl _
  · exact .refl _
  · exact .bind h fun _ => .refl _

/-- What is read without recovery is read with it. -/
theorem level_subsumes (levels : Nat) (production : Production) :
    Subsumes context (level levels production) (levelWith strictReader levels production) := by
  induction levels generalizing production with
  | zero => exact .refl _
  | succ levels ih =>
    refine .nested ?_
    by_cases hitems : production = .blockItems
    · subst hitems
      exact (blockItemsWith_subsumes (statementOrError_subsumes ih)).around
    · rw [parseWith_of_ne hitems]
      exact (parse_composed hitems).subsumes ih

end

end OpenQasm.Grammar
