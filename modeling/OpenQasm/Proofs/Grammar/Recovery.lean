import OpenQasm.Proofs.Grammar.Outcomes
import OpenQasm.Proofs.Grammar.Statements

/-!
# Readings of recovery

What becomes of a statement that fails: everything it pushed is dropped, tokens are passed over, and
an error takes its place, unless an overflow of the depth is to unwind out of the blocks around.
-/

namespace OpenQasm

/-- One error node more and nothing else. -/
def Builder.withError (builder : Builder) (span : Span) : Builder :=
  { builder with
    nodes := builder.nodes.push ⟨.error, span⟩
    parents := builder.parents.push none }

/-- An error is pushed without a fault: it has no children. -/
theorem Builder.push_error (builder : Builder) (span : Span) :
    builder.push .error span = .ok (⟨builder.size⟩, builder.withError span) := rfl

namespace Grammar

/-! ## The tokens passed over -/

/-- No more is skipped than is there. -/
theorem skipLength_le (opened : Nat) (tokens : List Token) :
    skipLength opened tokens ≤ tokens.length := by
  fun_induction skipLength opened tokens <;> simp_all

/-- The tokens passed over close the braces that are open, and no others, unless the text ends
before. -/
theorem braceLevel?_skipLength (opened : Nat) (tokens : List Token)
    (h : tokens.drop (skipLength opened tokens) ≠ []) :
    braceLevel? opened (tokens.take (skipLength opened tokens)) = some 0 := by
  fun_induction skipLength opened tokens with
  | case1 => cases h rfl
  | case2 opened token rest hk ih =>
    rw [List.take_succ_cons, braceLevel?_left hk]
    exact ih h
  | case3 token rest hk hr => rfl
  | case4 token rest hk hr =>
    rw [List.take_succ_cons, braceLevel?_right hr]
    rfl
  | case5 token rest hk hr opened ih =>
    rw [List.take_succ_cons, braceLevel?_right hr]
    exact ih h
  | case6 token rest hk hr hs =>
    rw [List.take_succ_cons, braceLevel?_plain (hs ▸ rfl)]
    rfl
  | case7 => rfl
  | case8 token rest hl hr hs hstart ih =>
    have hb := ((brace_cases token).resolve_left hl).resolve_left hr
    rw [List.take_succ_cons, braceLevel?_plain hb]
    exact ih h
  | case9 opened token rest hl hr ho ih =>
    have hb := ((brace_cases token).resolve_left hl).resolve_left hr
    rw [List.take_succ_cons, braceLevel?_plain hb]
    exact ih h

/-- No more is skipped than is there, also where one token is skipped in any case. -/
theorem skipStatementLength_le (opened : Nat) (tokens : List Token) :
    skipStatementLength opened tokens ≤ tokens.length := by
  cases tokens with
  | nil => exact Nat.le_refl _
  | cons token rest =>
    rw [skipStatementLength]
    split
    · exact Nat.succ_le_succ (Nat.zero_le _)
    · exact Nat.succ_le_succ (skipLength_le _ _)

/-- The same where the first token is passed over in any case, unless it is a closing brace. -/
theorem braceLevel?_skipStatementLength (opened : Nat) {token : Token} {rest : List Token}
    (hr : token.kind ≠ Symbol.rightBrace)
    (h : (token :: rest).drop (skipStatementLength opened (token :: rest)) ≠ []) :
    braceLevel? opened ((token :: rest).take (skipStatementLength opened (token :: rest))) =
      some 0 := by
  rw [skipStatementLength] at h ⊢
  split at h
  · next hs =>
    rw [if_pos hs, List.take_succ_cons, braceLevel?_plain (hs.1 ▸ rfl), hs.2]
    rfl
  · next hs =>
    rw [if_neg hs, List.take_succ_cons]
    rw [List.drop_succ_cons] at h
    have hlevel := braceLevel?_skipLength _ _ h
    rcases brace_cases token with hk | hk | hk
    · rw [if_pos hk] at hlevel ⊢
      rwa [braceLevel?_left hk]
    · exact absurd hk hr
    · have hl : token.kind ≠ Symbol.leftBrace := fun hl => by rw [hl] at hk; cases hk
      rw [if_neg hl] at hlevel ⊢
      rwa [braceLevel?_plain hk]

/-- The number of tokens passed over after a statement that stopped. As many braces are open as an
overflow has recorded. -/
def skipped (base failed : State) : Nat :=
  if failed.position = base.position then
    skipStatementLength (failed.unwinding.getD 0) failed.rest
  else skipLength (failed.unwinding.getD 0) failed.rest

/-- The recovery stays within what is left. -/
theorem skipped_le (base failed : State) : skipped base failed ≤ failed.rest.length := by
  unfold skipped
  split
  · exact skipStatementLength_le _ _
  · exact skipLength_le _ _

/-- The state in which reading goes on after a statement that stopped, but for the error. -/
def resumed (base failed : State) : State :=
  { failed with
    rest := failed.rest.drop (skipped base failed)
    position := failed.position + skipped base failed
    previousEnd := endAfter failed.previousEnd (failed.rest.take (skipped base failed))
    builder := base.builder
    unwinding := none
    resync := some (failed.position + skipped base failed) }

/-! ## The error in place of the statement -/

/-- The error in place of a statement that stopped. -/
def errorNode (reading : Reading) (base failed : State) : Placed where
  id := ⟨base.builder.size⟩
  kind := .error
  span := ⟨reading.context.source, reading.nextStart base.rest,
    max (resumed base failed).previousEnd (reading.nextStart base.rest)⟩

section
variable {reading : Reading} {context : Context} {inner : Level} {base failed after : State}
  {node : Placed}

/-- Passing no more tokens than there are counts them. -/
theorem pass_of_le {n : Nat} (state : State) (h : n ≤ state.rest.length) :
    State.pass n state =
      { state with
        rest := state.rest.drop n
        position := state.position + n
        previousEnd := endAfter state.previousEnd (state.rest.take n) } := by
  have hn : (state.rest.take n).length = n := List.length_take_of_le h
  have := pass_append state (state.rest.take n) (state.rest.drop n) (List.take_append_drop n _).symm
  rwa [hn] at this

/-- A statement is the one that its keyword begins. -/
theorem statement_of_keyword {keyword : Keyword} {token : Token} {rest : List Token}
    (hr : base.rest = token :: rest) (hk : token.kind = .keyword keyword) :
    statement inner context base = keywordStart inner keyword context base := by
  unfold statement
  rw [bind_of_ok (current_eq context base), hr]
  dsimp only [List.head?_cons]
  rw [hk]

/-- The next token is looked at and not read. -/
theorem exists_currentSpan (reading : Reading) (state : State) :
    ∃ span : Span, currentSpan reading.context state = .ok span state ∧
      span.start = reading.nextStart state.rest := by
  have hcurrent : current reading.context state = .ok state.rest.head? state := rfl
  unfold currentSpan
  rw [bind_of_ok hcurrent]
  cases state.rest with
  | nil => exact ⟨_, rfl, rfl⟩
  | cons token rest => exact ⟨token.span, rfl, rfl⟩

/-- Looking at the next token never fails. -/
theorem currentSpan_ok (context : Context) (state : State) :
    ∃ span : Span, currentSpan context state = .ok span state := by
  have hcurrent : current context state = .ok state.rest.head? state := rfl
  unfold currentSpan
  rw [bind_of_ok hcurrent]
  cases state.rest <;> exact ⟨_, rfl⟩

/-- What is done after a statement that stopped. -/
def afterStop (mark before : Nat) (start : Span) : Parser Placed := do
  modify fun state => { state with builder := state.builder.truncate mark }
  let state ← get
  if state.unwinding.isSome ∧ 0 < state.openBlocks then recover
  set { state with unwinding := none }
  synchronize before (state.unwinding.getD 0)
  placeFrom start .error

/-- A statement is read, or what is left of it is cleared away. -/
theorem statementOrError_eq (inner : Level) :
    statementOrError inner = (do
      let mark := (← get).builder.size
      let before := (← get).position
      let start ← currentSpan
      match ← attempt (statement inner) with
      | some node => return node
      | none => afterStop mark before start) := rfl

/-- A statement that is read is yielded as it is. -/
theorem statementOrError_ok (h : statement inner context base = .ok node after) :
    statementOrError inner context base = .ok node after := by
  obtain ⟨span, hspan⟩ := currentSpan_ok context base
  have hattempt : attempt (statement inner) context base = .ok (some node) after := by
    simp only [attempt, h]
  unfold statementOrError
  rw [get_bind, get_bind, bind_of_ok hspan, bind_of_ok hattempt]
  rfl

/-- A crash within a statement goes through. -/
theorem statementOrError_crash {failure : Crash}
    (h : statement inner context base = .error (.crash failure) after) :
    statementOrError inner context base = .error (.crash failure) after := by
  obtain ⟨span, hspan⟩ := currentSpan_ok context base
  have hattempt : attempt (statement inner) context base = .error (.crash failure) after := by
    simp only [attempt, h]
  unfold statementOrError
  rw [get_bind, get_bind, bind_of_ok hspan, bind_of_error hattempt]

/-- After a stop, what is done next is done in the state that the statement has left. -/
theorem statementOrError_stop {start : Span} (hspan : currentSpan context base = .ok start base)
    (h : statement inner context base = .error .recovered failed) :
    statementOrError inner context base =
      afterStop base.builder.size base.position start context failed := by
  have hattempt : attempt (statement inner) context base = .ok none failed := by
    simp only [attempt, h]
  rw [statementOrError_eq, get_bind, get_bind, bind_of_ok hspan, bind_of_ok hattempt]

/-- A stop while an overflow unwinds out of open blocks goes on to the block around. -/
theorem statementOrError_unwinds
    (h : statement inner reading.context base = .error .recovered failed)
    (hu : failed.unwinding.isSome ∧ 0 < failed.openBlocks) :
    statementOrError inner reading.context base =
      .error .recovered
        { failed with builder := failed.builder.truncate base.builder.size } := by
  obtain ⟨span, hspan, -⟩ := exists_currentSpan reading base
  rw [statementOrError_stop hspan h, afterStop, modify_bind, get_bind]
  exact congrFun (congrFun (if_pos hu) _) _

/-- The state after the recovery. -/
def recovered (reading : Reading) (base failed : State) : State :=
  { resumed base failed with
    builder := base.builder.withError (errorNode reading base failed).span }

/-- Every other stop leads to where reading goes on, with an error in place of the statement. -/
theorem statementOrError_recovers
    (h : statement inner reading.context base = .error .recovered failed)
    (hu : ¬(failed.unwinding.isSome ∧ 0 < failed.openBlocks))
    (hb : failed.builder.truncate base.builder.size = base.builder) :
    statementOrError inner reading.context base =
      .ok (errorNode reading base failed) (recovered reading base failed) := by
  obtain ⟨span, hspan, hstart⟩ := exists_currentSpan reading base
  have hpass := pass_of_le { failed with builder := base.builder, unwinding := none }
    (skipped_le base failed)
  have hsync : synchronize base.position (failed.unwinding.getD 0) reading.context
      { failed with builder := base.builder, unwinding := none } =
        .ok () (resumed base failed) := by
    unfold synchronize
    rw [get_bind]
    exact congrArg (EStateM.Result.ok ()) (congrArg
      (fun state : State => { state with resync := some state.position }) hpass)
  rw [statementOrError_stop hspan h, afterStop, modify_bind, get_bind]
  dsimp only
  rw [if_neg hu, hb, set_bind, bind_of_ok hsync]
  have hplace : placeFrom span .error reading.context (resumed base failed) =
      .ok (errorNode reading base failed) (recovered reading base failed) := by
    unfold recovered errorNode
    rw [← hstart]
    rfl
  exact hplace

end

/-! ## What is read by a statement or an error in its place -/

namespace Reading

section
variable {reading : Reading} {levels : Nat} {inner : Level} {base failed after : State}
  {token : Token} {rest : List Token}

/-- The tokens read between two states. -/
def readBy (base after : State) : List Token := base.rest.take (after.position - base.position)

/-- What was read is told by the two states. -/
theorem readBy_eq {read : List Token} (hs : base.rest = read ++ after.rest)
    (hp : after.position = base.position + read.length) : readBy base after = read := by
  rw [readBy, hp, Nat.add_sub_cancel_left, hs, List.take_left]

/-- The tokens passed over after a statement that stopped. -/
def passedOver (base failed : State) : List Token := failed.rest.take (skipped base failed)

/-- What is passed over closes the braces that an overflow has recorded, and nothing else. -/
theorem Dropped.passedOver_closes (hd : reading.Dropped base failed)
    (hr : base.rest = token :: rest) (hb : token.kind ≠ Symbol.rightBrace)
    (hne : (resumed base failed).rest ≠ []) :
    braceLevel? (failed.unwinding.getD 0) (passedOver base failed) = some 0 := by
  obtain ⟨read, hsplit, hposition, -⟩ := hd.read
  unfold passedOver
  unfold resumed at hne
  dsimp only at hne
  unfold skipped at hne ⊢
  split
  · next heq =>
    rw [if_pos heq] at hne
    have hread : read = [] := List.length_eq_zero_iff.1 (by omega)
    rw [hread, List.nil_append, hr] at hsplit
    rw [← hsplit] at hne ⊢
    exact braceLevel?_skipStatementLength _ hb hne
  · next heq =>
    rw [if_neg heq] at hne
    exact braceLevel?_skipLength _ _ hne

/-- A statement that stopped and its recovery read a token at least. -/
theorem Dropped.passedOver_ne_nil (hd : reading.Dropped base failed) (hr : base.rest ≠ []) :
    readBy base failed ++ passedOver base failed ≠ [] := by
  obtain ⟨read, hsplit, hposition, -⟩ := hd.read
  rw [readBy_eq hsplit hposition]
  intro hnil
  obtain ⟨hread, hover⟩ := List.append_eq_nil_iff.1 hnil
  subst hread
  rw [List.nil_append] at hsplit
  obtain ⟨token, rest, hcons⟩ := List.exists_cons_of_ne_nil hr
  have hskipped : 0 < skipped base failed := by
    rw [skipped, if_pos (by simpa using hposition), ← hsplit, hcons, skipStatementLength]
    split <;> omega
  rw [passedOver, ← hsplit, hcons, List.take_eq_nil_iff] at hover
  rcases hover with hover | hover
  · omega
  · cases hover

/-- After the recovery, an error has been pushed and nothing else tells that the statement was
begun. -/
theorem Dropped.held (h : reading.Ready levels base) (hd : reading.Dropped base failed)
    (hr : base.rest ≠ [])
    (hb : reading.fair → (resumed base failed).rest ≠ [] →
      Balanced (readBy base failed ++ passedOver base failed)) :
    reading.Held levels base (readBy base failed ++ passedOver base failed)
      (resumed base failed).rest [errorNode reading base failed] 0
      (recovered reading base failed) := by
  have hne := hd.passedOver_ne_nil hr
  obtain ⟨read, hsplit, hposition, hend, -⟩ := hd.read
  have hread := readBy_eq hsplit hposition
  rw [hread] at hne hb ⊢
  have hlength : (passedOver base failed).length = skipped base failed :=
    List.length_take_of_le (skipped_le base failed)
  have hall : base.rest = read ++ passedOver base failed ++ (resumed base failed).rest := by
    rw [hsplit, List.append_assoc]
    exact congrArg (read ++ ·) (List.take_append_drop _ _).symm
  have hstop : (resumed base failed).previousEnd =
      endAfter base.previousEnd (read ++ passedOver base failed) := by
    rw [endAfter_append, ← hend]
    rfl
  have hle : reading.nextStart base.rest ≤ (resumed base failed).previousEnd :=
    hstop ▸ h.nextStart_le_endAfter hall hne
  obtain ⟨pushed, hpush, hgrown⟩ := Grown.push .error (errorNode reading base failed).span h.sized
    (Grown.refl reading.context.source base.builder)
    (fun _ hp => nomatch hp) rfl rfl (Nat.le_max_right _ _) trivial
  rw [show NodeKind.map Placed.id .error = .error from rfl, Builder.push_error] at hpush
  obtain rfl := (Prod.mk.inj (Except.ok.inj hpush)).2
  exact
    { start := h
      split := hall
      rest := rfl
      position := by
        rw [List.length_append, hlength]
        exact (congrArg (· + _) hposition).trans (Nat.add_assoc ..)
      previousEnd := hstop
      depth := hd.depth
      openBlocks := hd.openBlocks
      scopes := hd.scopes
      version := hd.version
      unwinding := rfl
      resync := fun position hp => Nat.le_of_eq (Option.some.inj hp).symm
      reports := hd.reports
      grown := hgrown
      row := by
        rw [List.map_singleton, Span.inRow_singleton]
        exact ⟨rfl, Nat.le_refl _, Nat.le_max_right _ _, Nat.max_le.2 ⟨Nat.le_refl _, hle⟩⟩
      braces := hb }

/-- How the reading of a statement or an error ends: as the statement does if it is read or crashes;
if it fails, with a stop while an overflow unwinds out of open blocks, and else with an error. -/
theorem statementOrError_cases (hi : reading.Spec levels inner) (h : reading.Ready levels base) :
    (∃ node after, statement inner reading.context base = .ok node after ∧
      statementOrError inner reading.context base = .ok node after ∧
      reading.Yields True .statement levels base node after) ∨
    (∃ failed, statement inner reading.context base = .error .recovered failed ∧
      reading.Dropped base failed ∧ failed.unwinding.isSome ∧ 0 < base.openBlocks ∧
      statementOrError inner reading.context base =
        .error .recovered { failed with builder := base.builder }) ∨
    (∃ failed, statement inner reading.context base = .error .recovered failed ∧
      reading.Dropped base failed ∧
      statementOrError inner reading.context base =
        .ok (errorNode reading base failed) (recovered reading base failed)) ∨
    ∃ failure after, statement inner reading.context base = .error (.crash failure) after ∧
      statementOrError inner reading.context base = .error (.crash failure) after ∧
      reading.halts failure := by
  have hs := statement_runs hi h
  unfold Runs at hs
  cases hresult : statement inner reading.context base with
  | ok node after =>
    rw [hresult] at hs
    exact .inl ⟨node, after, rfl, statementOrError_ok hresult, hs⟩
  | error failure failed =>
    rw [hresult] at hs
    cases failure with
    | crash failure =>
      exact .inr (.inr (.inr ⟨failure, failed, rfl, statementOrError_crash hresult, hs⟩))
    | recovered =>
      have hd : reading.Dropped base failed := hs
      obtain ⟨roots, hgrown⟩ := hd.grown
      have htruncate := hgrown.truncate h.sized
      by_cases hu : failed.unwinding.isSome ∧ 0 < failed.openBlocks
      · have hstop := statementOrError_unwinds hresult hu
        rw [htruncate] at hstop
        exact .inr (.inl ⟨failed, rfl, hd, hu.1, hd.openBlocks ▸ hu.2, hstop⟩)
      · exact .inr (.inr (.inl ⟨failed, rfl, hd, statementOrError_recovers hresult hu htruncate⟩))

/-- A statement or an error in its place is read, unless an overflow unwinds out of open blocks.
Braces are kept balanced if the recovery is told of those that the statement leaves open. -/
theorem statementOrError_runs (hi : reading.Spec levels inner) (h : reading.Ready levels base)
    (hr : base.rest = token :: rest) (hk : token.kind ≠ Symbol.rightBrace)
    (hb : reading.fair → ∀ failed node after,
      statement inner reading.context base = .error .recovered failed →
      statementOrError inner reading.context base = .ok node after → after.rest ≠ [] →
      braceLevel? 0 (readBy base failed) = some (failed.unwinding.getD 0)) :
    reading.Runs (statementOrError inner) base (reading.Yields True .statement levels base)
      fun after => reading.Dropped base after ∧ 0 < base.openBlocks := by
  unfold Runs
  rcases statementOrError_cases hi h with ⟨node, after, -, hend, hv⟩ |
    ⟨failed, -, hd, -, hopen, hend⟩ | ⟨failed, hfailed, hd, hend⟩ | ⟨failure, after, -, hend, hh⟩
  · rw [hend]
    exact hv
  · rw [hend]
    exact ⟨{ hd with grown := ⟨[], .refl _ _⟩ }, hopen⟩
  · have hne : base.rest ≠ [] := hr ▸ List.cons_ne_nil _ _
    have hheld := hd.held h hne fun hf hrest => by
      rw [Balanced, braceLevel?_append, hb hf _ _ _ hfailed hend hrest, Option.bind_some]
      exact hd.passedOver_closes hr hk hrest
    rw [hend]
    refine ⟨base, _, _, .refl _, hd.passedOver_ne_nil hne, hheld, rfl, ?_⟩
    have hle := hheld.nextStart_le_previousEnd (hd.passedOver_ne_nil hne)
    exact congrArg (Span.mk _ _) (Nat.max_eq_left hle)
  · rw [hend]
    exact hh

end

end Reading

end Grammar

end OpenQasm
