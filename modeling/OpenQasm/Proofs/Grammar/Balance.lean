import OpenQasm.Proofs.Grammar.Atomicity
import OpenQasm.Proofs.Grammar.Watching

/-!
# Braces around statements that fail

After a statement that fails, the recovery takes as many braces to be open as an overflow of the
depth has recorded, and none without an overflow. So it comes back to the level on which the
statement began if and only if the statement left this number of braces open.
-/

namespace OpenQasm.Grammar

open Reading

/-- The state in which a statement is read, or fails. -/
def statementEnd (inner : Level) (context : Context) (call : State) : State :=
  match statement inner context call with
  | .ok _ after => after
  | .error _ failed => failed

section
variable {source : SourceId} {text : List Char} {options : ParseOptions} {levels : Nat}
  {call after : State} {node : Placed}

/-- What follows some tokens and closes `told` braces makes them balanced if and only if they leave
as many open. -/
theorem balanced_append_iff {tokens more : List Token} {told : Nat}
    (h : braceLevel? told more = some 0) :
    Balanced (tokens ++ more) ↔ braceLevel? 0 tokens = some told := by
  rw [Balanced, braceLevel?_append, Option.bind_eq_some_iff]
  constructor
  · rintro ⟨level, hlevel, hmore⟩
    rw [hlevel, braceLevel?_inj hmore h]
  · exact fun hlevel => ⟨told, hlevel, h⟩

/-- The tokens that a begun statement takes up, with tokens left behind them, are balanced if and
only if it ends with as many of its braces open as the recovery is told. -/
theorem balanced_readBy_iff (h : Begins source text options levels call)
    (hok : statementOrError (level levels) ⟨source, text, options⟩ call = .ok node after)
    (hne : after.rest ≠ []) :
    Balanced (readBy call after) ↔
      braceLevel? 0 (readBy call (statementEnd (level levels) ⟨source, text, options⟩ call)) =
        some ((statementEnd (level levels) ⟨source, text, options⟩ call).unwinding.getD 0) := by
  obtain ⟨hready, token, rest, hr, hk⟩ := h.ready
  have hcontext : (Reading.ofText source text options).context = ⟨source, text, options⟩ := rfl
  unfold statementEnd
  rw [← hcontext] at hok ⊢
  rcases statementOrError_cases (level_spec id) hready with ⟨node, after, hread, hend, hv⟩ |
    ⟨failed, -, hd, -, -, hend⟩ | ⟨failed, hfailed, hd, hend⟩ | ⟨failure, after, -, hend, -⟩
  · obtain ⟨rfl, rfl⟩ := EStateM.Result.ok.inj (hok.symm.trans hend)
    rw [hread, Balanced, hv.unwinding]
    rfl
  · cases hok.symm.trans hend
  · obtain ⟨-, rfl⟩ := EStateM.Result.ok.inj (hok.symm.trans hend)
    have hheld := hd.held hready (hr ▸ List.cons_ne_nil _ _) fun hf => hf.elim
    have hread : readBy call (recovered (ofText source text options) call failed) =
        readBy call failed ++ passedOver call failed := readBy_eq hheld.split hheld.position
    rw [hread, hfailed]
    exact balanced_append_iff (hd.passedOver_closes hr hk hne)
  · cases hok.symm.trans hend

/-! ## Statements in statements -/

/-- A statement fails with other braces open than the recovery is told, and the recovery comes to
an end before the tokens do. -/
def Misled (context : Context) : Watch := fun levels call =>
  ∃ failed node after, statement (level levels) context call = .error .recovered failed ∧
    statementOrError (level levels) context call = .ok node after ∧ after.rest ≠ [] ∧
    braceLevel? 0 (readBy call failed) ≠ some (failed.unwinding.getD 0)

/-- The reading of a text that takes its statements to keep braces balanced. It may crash. -/
def fairly (hs : SignaturesBalanced (startState source text options).rest) : Reading :=
  { Reading.ofText source text options with
    halts := fun _ => True
    halts_overflow := fun _ _ => trivial
    fair := True
    signatures := fun _ => hs }

/-- Statements that are not misled keep braces balanced. -/
theorem watching_misled_reads (hs : SignaturesBalanced (startState source text options).rest) :
    (fairly hs).Reads (watching (Misled ⟨source, text, options⟩)) := by
  intro levels hi base token rest h hr hk
  let inner : Watch → Level := fun watch => levelWith (watching watch) levels
  have hinner : inner nothing = level levels := levelWith_nothing levels
  unfold Runs
  rw [show (fairly hs).context = ⟨source, text, options⟩ from rfl]
  by_cases hwatch : Misled ⟨source, text, options⟩ levels base
  · rw [watching_of hwatch]
    trivial
  · rw [watching_of_not hwatch]
    refine statementOrError_runs hi h hr hk fun _ failed node after hfailed hok hne => ?_
    refine Classical.byContradiction fun hlevel => hwatch ⟨failed, node, after, ?_, ?_, hne, hlevel⟩
    · have hheeds := (statement_heeds (levelWith_heeds levels)).same_or_stops
        ⟨source, text, options⟩ (Misled ⟨source, text, options⟩) base
      rw [← hinner, ← hheeds.resolve_right fun ⟨_, hstop⟩ => nomatch hfailed.symm.trans hstop]
      exact hfailed
    · have hheeds := (statementOrError_heeds (levelWith_heeds levels)).same_or_stops
        ⟨source, text, options⟩ (Misled ⟨source, text, options⟩) base
      rw [← hinner, ← hheeds.resolve_right fun ⟨_, hstop⟩ => nomatch hok.symm.trans hstop]
      exact hok

/-- If no statement that a parse begins is misled, each of them is balanced. -/
theorem balanced_of_not_misled (hs : SignaturesBalanced (startState source text options).rest)
    (hn : ∀ levels call, Begins source text options levels call →
      ¬Misled ⟨source, text, options⟩ levels call)
    (h : Begins source text options levels call)
    (hok : statementOrError (level levels) ⟨source, text, options⟩ call = .ok node after)
    (hne : after.rest ≠ []) : Balanced (readBy call after) := by
  obtain ⟨hready, token, rest, hr, hk⟩ := h.ready
  have hreads := watching_misled_reads hs
  have hruns := hreads levels (levelWith_spec hreads) call token rest { hready with } hr hk
  unfold Runs at hruns
  rw [show (fairly hs).context = ⟨source, text, options⟩ from rfl, h.watching_eq hn, hok] at hruns
  obtain ⟨call', read, ahead, hrev, -, hheld, -⟩ := hruns
  have hcall : call'.rest = call.rest ∧ call'.position = call.position := by
    rw [hrev.state]
    exact ⟨rfl, rfl⟩
  have hsplit : call.rest = read ++ after.rest := by
    rw [← hcall.1, hheld.rest]
    exact hheld.split
  rw [readBy_eq hsplit (hcall.2 ▸ hheld.position)]
  exact hheld.braces trivial (hheld.rest ▸ hne)

/-- The tokens that a begun statement takes up, with tokens left behind them, are balanced if and
only if it ends with as many of its braces open as the recovery is told. If the signatures of
calibrations are balanced, then all begun statements are, unless there is one that is misled. -/
theorem statementOrError_balanced_iff (source : SourceId) (text : List Char)
    (options : ParseOptions) :
    (∀ levels call node after, Begins source text options levels call →
      statementOrError (level levels) ⟨source, text, options⟩ call = .ok node after →
      after.rest ≠ [] →
      (Balanced (readBy call after) ↔
        braceLevel? 0 (readBy call (statementEnd (level levels) ⟨source, text, options⟩ call)) =
          some ((statementEnd (level levels) ⟨source, text, options⟩ call).unwinding.getD 0))) ∧
    (SignaturesBalanced (startState source text options).rest →
      ((∀ levels call node after, Begins source text options levels call →
        statementOrError (level levels) ⟨source, text, options⟩ call = .ok node after →
        after.rest ≠ [] → Balanced (readBy call after)) ↔
      ∀ levels call, Begins source text options levels call →
        ¬Misled ⟨source, text, options⟩ levels call)) := by
  refine ⟨fun levels call node after h hok hne => balanced_readBy_iff h hok hne, fun hs => ?_⟩
  constructor
  · rintro hall levels call h ⟨failed, node, after, hfailed, hok, hne, hlevel⟩
    have hend : statementEnd (level levels) ⟨source, text, options⟩ call = failed := by
      rw [statementEnd, hfailed]
    have hbalanced := (balanced_readBy_iff h hok hne).1 (hall levels call node after h hok hne)
    rw [hend] at hbalanced
    exact hlevel hbalanced
  · exact fun hn levels call node after h hok hne => balanced_of_not_misled hs hn h hok hne

end

/-- The brace that closes the switch in `{ switch (x) { b; } c; } d;` is left to close the block
around it. -/
theorem not_balanced_switch :
    ¬∀ text levels call node after, Begins ⟨0⟩ text {} levels call →
      statementOrError (level levels) ⟨⟨0⟩, text, {}⟩ call = .ok node after → after.rest ≠ [] →
      Balanced (readBy call after) := by
  intro hall
  let text := "\x7b switch (x) \x7b b; \x7d c; \x7d d;".toList
  have h : Begins ⟨0⟩ text {} 257 (startState ⟨0⟩ text {}) := by
    obtain ⟨rest, hrest⟩ : ∃ rest, (startState ⟨0⟩ text {}).rest =
        ⟨Symbol.leftBrace, ['{'], ⟨⟨0⟩, 0, 1⟩⟩ :: rest :=
      ⟨(startState ⟨0⟩ text {}).rest.tail, by decide +kernel⟩
    exact begins_first hrest (by decide)
  have hend : (match statementOrError (level 257) ⟨⟨0⟩, text, {}⟩ (startState ⟨0⟩ text {}) with
    | .ok _ after => decide (after.rest ≠ []) &&
        !decide (Balanced (readBy (startState ⟨0⟩ text {}) after))
    | .error _ _ => false) = true := by decide +kernel
  cases hresult : statementOrError (level 257) ⟨⟨0⟩, text, {}⟩ (startState ⟨0⟩ text {}) with
  | error failure after =>
    rw [hresult] at hend
    cases hend
  | ok node after =>
    rw [hresult] at hend
    obtain ⟨hne, hopen⟩ := Bool.and_eq_true_iff.1 hend
    have hbalanced := hall _ _ _ _ _ h hresult (of_decide_eq_true hne)
    rw [decide_eq_true hbalanced] at hopen
    cases hopen

end OpenQasm.Grammar
