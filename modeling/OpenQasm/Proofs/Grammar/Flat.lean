import OpenQasm.Proofs.Grammar.Confined
import OpenQasm.Proofs.Grammar.Portions

/-!
# Flat statements

A statement without braces, of tokens none of which starts a statement, is one item of a program
together with its semicolon, be it well formed or not: it reads the semicolon as its last token, or
the recovery does.
-/

namespace OpenQasm.Grammar

open Reading

section
variable {stop token : Token} {behind rest : List Token} {context : Context} {inner : Level}
  {state : State} {span : Span}

/-! ## Statements -/

section
variable {α β : Type} {parser : Parser α} {next : α → Parser β}

/-- The parser reads the statement to its end, or it stops within it. -/
def Ends (stop : Token) (behind : List Token) (context : Context) (parser : Parser α)
    (state : State) : Prop :=
  match parser context state with
  | .ok _ after => after.rest = behind
  | .error .recovered failed => Within stop behind failed
  | .error (.crash _) _ => True

/-- The parser ends the statement that it is in. -/
def Finishes (stop : Token) (behind : List Token) (context : Context) (parser : Parser α) : Prop :=
  ∀ state, Within stop behind state → Ends stop behind context parser state

/-- The parser reads no token and does not stop. -/
def Concludes (context : Context) (parser : Parser α) : Prop :=
  ∀ state, Comes (· ≠ .recovered) context parser state fun _ after => after.rest = state.rest

/-- What goes on from within the statement to its end ends it. -/
theorem Ends.bindAt (h : Remains stop behind context parser state)
    (hn : ∀ value middle, parser context state = .ok value middle → Within stop behind middle →
      Ends stop behind context (next value) middle) :
    Ends stop behind context (parser >>= next) state := by
  unfold Remains at h
  unfold Ends
  cases hresult : parser context state with
  | ok value middle =>
    rw [hresult] at h
    rw [bind_of_ok hresult]
    exact hn value middle hresult h
  | error failure failed =>
    rw [hresult] at h
    rw [bind_of_error hresult]
    cases failure with
    | recovered => exact h
    | crash failure => trivial

/-- What has answered goes on to the end. -/
theorem Ends.of_ok {value : α} {middle : State} (h : parser context state = .ok value middle)
    (hn : Ends stop behind context (next value) middle) :
    Ends stop behind context (parser >>= next) state := by
  rwa [Ends, bind_of_ok h]

/-- What is confined may come before what finishes. -/
theorem Finishes.bind (h : Confined stop behind context parser)
    (hn : ∀ value, Finishes stop behind context (next value)) :
    Finishes stop behind context (parser >>= next) := fun state hw =>
  .bindAt (h state hw) fun value middle _ hm => hn value middle hm

/-- An unexpected token stops within the statement. -/
theorem Finishes.unexpected {expected : String} :
    Finishes stop behind context (unexpected expected : Parser α) := by
  intro state hw
  rw [← bind_pure (Grammar.unexpected expected)]
  exact .bindAt (Confined.unexpected state hw) fun _ _ hok _ => absurd hok unexpected_ne_ok

/-- The semicolon ends the statement, and nothing stops after it. -/
theorem Finishes.semicolon {next : Token → Parser β}
    (hn : ∀ token, Concludes context (next token)) :
    Finishes stop behind context (expect Symbol.semicolon >>= next) := by
  intro state hw
  obtain ⟨token, rest, hr⟩ : ∃ token rest, state.rest = token :: rest := by
    obtain ⟨words, hr, -⟩ := hw.rest
    exact List.exists_cons_of_ne_nil (by simp [hr])
  rcases hw.head hr with ⟨rfl, rfl⟩ | ⟨hflat, -⟩
  · refine .of_ok (expect_ok_iff.2 ⟨rest, hr, hw.ends, rfl⟩) ?_
    have hconcludes := hn token (State.pass 1 state)
    unfold Comes at hconcludes
    unfold Ends
    cases hresult : next token context (State.pass 1 state) with
    | ok value after =>
      rw [hresult] at hconcludes
      exact hconcludes.trans (rest_pass hr)
    | error failure failed =>
      rw [hresult] at hconcludes
      cases failure with
      | recovered => exact absurd rfl hconcludes
      | crash failure => trivial
  · have hne : ∀ other more, state.rest = other :: more → other.kind ≠ Symbol.semicolon :=
      fun other more hr' => (List.cons.inj (hr.symm.trans hr')).1 ▸ hflat.1
    refine .bindAt (Confined.expectAt hw fun other more hr' hk => absurd hk (hne other more hr'))
      fun other middle hok _ => ?_
    obtain ⟨more, hr', hk, -⟩ := expect_ok_iff.1 hok
    exact absurd hk (hne other more hr')

/-- A node is placed behind the semicolon. -/
theorem concludes_placeFrom {node : NodeKind Placed} : Concludes context (placeFrom span node) :=
  fun _ => .placeFrom (fun _ => nofun) fun _ _ _ hrest _ _ => hrest

/-- So is a name declared. -/
theorem concludes_declare {name : Placed} : Concludes context (declare name) := by
  intro state
  refine .of_ok rfl ?_
  split
  · split <;> rfl
  · rfl

/-- An expression statement reads its statement to the end, or stops within it. -/
theorem expressionStatement_finishes (hs : ConfinedLevel stop behind context inner) :
    Finishes stop behind context (expressionStatement inner) :=
  .bind .currentSpan fun _ => .bind hs.expression fun _ => .semicolon fun _ => concludes_placeFrom

/-- So does a measurement. -/
theorem measureStatement_finishes (hs : ConfinedLevel stop behind context inner) :
    Finishes stop behind context (measureStatement inner) := by
  refine .bind .currentSpan fun start => .bind (measurement_confined hs) fun measured => ?_
  refine .bind (.accept (by decide)) fun seen => ?_
  split
  · exact .bind (.map (operand_confined hs)) fun _ => .semicolon fun _ => concludes_placeFrom
  · exact .bind .pure fun _ => .semicolon fun _ => concludes_placeFrom

/-- So does a gate call. -/
theorem gateCall_finishes (hs : ConfinedLevel stop behind context inner) :
    Finishes stop behind context (gateCall inner) :=
  .bind .currentSpan fun _ => .bind (gateModifiers_confined hs) fun _ =>
    .bind gateName_confined fun _ => .bind (gateArguments_confined hs) fun _ =>
      .bind (designator_confined hs) fun _ => .bind (operands_confined hs) fun _ =>
        .semicolon fun _ => concludes_placeFrom

/-- So does an assignment. -/
theorem assignment_finishes (hs : ConfinedLevel stop behind context inner) :
    Finishes stop behind context (assignment inner) := by
  refine .bind .currentSpan fun start => .bind (operand_confined hs) fun target state hw => ?_
  refine .of_ok rfl ?_
  split
  · next op hop =>
    obtain ⟨token, rest, hr, hkind⟩ := exists_of_operator hop
    have hpassed := hw.pass hr (ne_semicolon_of_operator hkind rfl)
    exact Finishes.bind (value_confined hs) (fun value => .semicolon fun _ => concludes_placeFrom)
      _ hpassed
  · exact Finishes.unexpected state hw

/-- So does the declaration of a variable. -/
theorem classicalDecl_finishes (hs : ConfinedLevel stop behind context inner) :
    Finishes stop behind context (classicalDecl inner) := by
  have hend {start : Span} {type name : Placed} {init : Option Placed} :
      Finishes stop behind context (do
        let _ ← expect Symbol.semicolon
        declare name
        placeFrom start (.classicalDecl type name init)) :=
    .semicolon fun _ state => (concludes_declare state).bind fun _ middle hm =>
      (concludes_placeFrom middle).mono fun _ _ hr => hr.trans hm
  refine .bind .currentSpan fun start => .bind (type_confined hs) fun type => ?_
  refine .bind .requireVersion3 fun _ => .bind .identifier fun name => ?_
  refine .bind (.accept (by decide)) fun seen => ?_
  split
  · exact .bind (.map (initializer_confined hs)) fun _ => hend
  · exact .bind .pure fun _ => hend

/-- Of the keywords, only those that start no statement by themselves come first. -/
theorem keywordStart_finishes (hs : ConfinedLevel stop behind context inner) {keyword : Keyword}
    (hk : IsFlat keyword) : Finishes stop behind context (keywordStart inner keyword) := by
  have hstart := hk.2.2.2
  unfold keywordStart
  split
  case h_30 => exact measureStatement_finishes hs
  case h_31 | h_32 | h_33 | h_34 | h_35 => exact gateCall_finishes hs
  case h_36 =>
    split
    · intro state hw
      refine .of_ok rfl ?_
      split
      · exact expressionStatement_finishes hs state hw
      · exact classicalDecl_finishes hs state hw
    · split
      · exact expressionStatement_finishes hs
      · exact .unexpected
  all_goals exact absurd hstart (by decide)

/-- A statement whose tokens are flat is read to its semicolon, or it stops before. -/
theorem statement_finishes (hs : ConfinedLevel stop behind context inner) :
    Finishes stop behind context (statement inner) := by
  intro state hw
  refine .of_ok (current_eq context state) ?_
  split
  · exact Finishes.unexpected state hw
  · next token htoken =>
    obtain ⟨rest, hr⟩ := List.head?_eq_some_iff.1 htoken
    rcases hw.head hr with ⟨rfl, -⟩ | ⟨hflat, -⟩
    · rw [hw.ends]
      exact Finishes.unexpected state hw
    · split
      · next keyword hk => exact keywordStart_finishes hs (hk ▸ hflat) state hw
      · next hk => exact absurd hflat (hk ▸ by decide)
      · next hk => exact absurd hflat (hk ▸ by decide)
      · next hk => exact absurd hflat (hk ▸ by decide)
      · refine .of_ok rfl ?_
        split
        · exact gateCall_finishes hs state hw
        · exact assignment_finishes hs state hw
        · exact expressionStatement_finishes hs state hw
      · split
        · exact expressionStatement_finishes hs state hw
        · exact Finishes.unexpected state hw

end

end

/-! ## Programs -/

/-- A program takes some portions, and more may be ahead. -/
inductive Taken (item : Parser Placed) (context : Context) : State → List Portion → State → Prop
  | nil {state : State} : Taken item context state [] state
  | cons {state middle last : State} {portion : Portion} {portions : List Portion} :
      Takes item context state portion middle → Taken item context middle portions last →
      Taken item context state (portion :: portions) last

section
variable {item : Parser Placed} {context : Context} {reading : Reading} {levels : Nat}
  {start state after other last : State} {portion portion' : Portion}
  {earlier portions : List Portion} {items : List Placed} {words behind : List Token} {stop : Token}

/-- An item that is taken was read. -/
theorem Takes.ok_of_item {node : Placed} {read : List Token}
    (h : Takes item context state (.item node read) after) :
    item context state = .ok node after := by
  cases h with
  | item _ _ hok => exact hok

/-- What is taken is determined. -/
theorem Takes.unique (h : Takes item context state portion after)
    (h' : Takes item context state portion' other) : portion = portion' ∧ after = other := by
  cases h with
  | stray hr hk hok =>
    cases h' with
    | stray hr' _ hok' =>
      obtain ⟨-, rfl⟩ := EStateM.Result.ok.inj (hok.symm.trans hok')
      obtain ⟨rfl, -⟩ := List.cons.inj (hr.symm.trans hr')
      exact ⟨rfl, rfl⟩
    | item hr' hk' _ => exact absurd ((List.cons.inj (hr.symm.trans hr')).1 ▸ hk) hk'
  | item hr hk hok =>
    cases h' with
    | stray hr' hk' _ => exact absurd ((List.cons.inj (hr.symm.trans hr')).1.symm ▸ hk') hk
    | item _ _ hok' =>
      obtain ⟨rfl, rfl⟩ := EStateM.Result.ok.inj (hok.symm.trans hok')
      exact ⟨rfl, rfl⟩

/-- All portions of a program begin with those that have been taken. -/
theorem Taken.portioned (h : Taken item context state earlier after)
    (hp : Portioned item context state portions last) :
    ∃ later, portions = earlier ++ later ∧ Portioned item context after later last := by
  induction h generalizing portions with
  | nil => exact ⟨portions, rfl, hp⟩
  | cons htakes _ ih =>
    cases hp with
    | done hnil =>
      cases htakes with
      | stray hr | item hr => cases hnil.symm.trans hr
    | next htakes' hp =>
      obtain ⟨rfl, rfl⟩ := htakes.unique htakes'
      obtain ⟨later, rfl, hlater⟩ := ih hp
      exact ⟨later, rfl, hlater⟩

/-- After some portions, the program is between statements. -/
theorem Taken.listed
    (h : Taken (statementOrError (level levels)) reading.context state portions after)
    (hf : ¬reading.fair) (hs : reading.Listed levels start items state) :
    ∃ items', reading.Listed levels start items' after := by
  induction h generalizing items with
  | nil => exact ⟨items, hs⟩
  | cons htakes _ ih =>
    exact ih (hs.takes htakes fun token rest => item_runs hf _ token rest hs.ready).1

/-- A flat statement at the top level is an item with its semicolon, and no other token, or it
crashes. -/
theorem Reading.Listed.takes_flat (hs : reading.Listed levels start items state)
    (hf : ¬reading.fair) (hr : state.rest = words ++ stop :: behind) (hflat : Flat words)
    (hstop : stop.kind = Symbol.semicolon) :
    (∃ node after, Takes (statementOrError (level levels)) reading.context state
        (.item node (words ++ [stop])) after ∧ after.rest = behind) ∨
      ∃ failure after, statementOrError (level levels) reading.context state =
        .error (.crash failure) after ∧ reading.halts failure := by
  have hwithin : Within stop behind state :=
    ⟨hstop, ⟨words, hr, hflat⟩, hs.openBlocks, by rw [hs.ready.unwinding]; rfl⟩
  have hends := statement_finishes (level_confined stop behind reading.context levels) state hwithin
  obtain ⟨token, rest, hcons⟩ : ∃ token rest, state.rest = token :: rest :=
    List.exists_cons_of_ne_nil (by simp [hr])
  have hk : token.kind ≠ Symbol.rightBrace := by
    rcases hwithin.head hcons with ⟨rfl, -⟩ | ⟨hword, -⟩
    · rw [hstop]
      decide
    · exact hword.2.2.1
  have hitem {node : Placed} {after : State}
      (hok : statementOrError (level levels) reading.context state = .ok node after)
      (hbehind : after.rest = behind) : Takes (statementOrError (level levels)) reading.context
        state (.item node (words ++ [stop])) after := by
    have htakes : Takes (statementOrError (level levels)) reading.context state
      (.item node (readBy state after)) after := .item hcons hk hok
    obtain ⟨-, hsplit, -⟩ := hs.takes htakes fun token rest => item_runs hf _ token rest hs.ready
    have hread : readBy state after = words ++ [stop] := by
      refine List.append_cancel_right (show readBy state after ++ after.rest =
        words ++ [stop] ++ after.rest from ?_)
      rw [hbehind, List.append_assoc, List.singleton_append, ← hr, hsplit, hbehind]
      rfl
    rwa [hread] at htakes
  rcases statementOrError_cases (level_spec hf) hs.ready with ⟨node, after, hread, hok, -⟩ |
    ⟨failed, -, -, -, hopen, -⟩ | ⟨failed, hfailed, -, hok⟩ | ⟨failure, after, -, hcrash, hhalts⟩
  · rw [Ends, hread] at hends
    exact .inl ⟨node, after, hitem hok hends, hends⟩
  · exact absurd hs.openBlocks (Nat.ne_of_gt hopen)
  · rw [Ends, hfailed] at hends
    exact .inl ⟨_, _, hitem hok hends.resumed, hends.resumed⟩
  · exact .inr ⟨failure, after, hcrash, hhalts⟩

end

/-- A broken statement that is flat costs only itself: behind whole portions of a program, it is one
item with its semicolon, and the next portion begins behind that, unless the parse crashes there
since the machine numbers do not suffice. -/
theorem parse_confines {source : SourceId} {text : List Char} {options : ParseOptions}
    {earlier : List Portion} {state : State} {words behind : List Token} {stop : Token}
    (h : Taken (statementOrError (level (options.maxDepth + 1))) ⟨source, text, options⟩
      (startState source text options) earlier state)
    (hr : state.rest = words ++ stop :: behind) (hflat : Flat words)
    (hstop : stop.kind = Symbol.semicolon) :
    (∃ node after, Takes (statementOrError (level (options.maxDepth + 1)))
        ⟨source, text, options⟩ state (.item node (words ++ [stop])) after ∧
      after.rest = behind ∧
      ∀ output, parse source text options = .ok output → ∃ later last,
        Portioned (statementOrError (level (options.maxDepth + 1))) ⟨source, text, options⟩ after
          later last ∧
        output.tree.items =
          ((earlier ++ .item node (words ++ [stop]) :: later).filterMap Portion.item?).map
            Placed.id) ∨
    ∃ failure after, statementOrError (level (options.maxDepth + 1)) ⟨source, text, options⟩ state =
        .error (.crash failure) after ∧
      Overflows ⟨source, text, options⟩ (startState source text options).rest failure := by
  let reading := ofText source text options
  obtain ⟨items, hlisted⟩ : ∃ items, reading.Listed (options.maxDepth + 1)
      (startState source text options) items state :=
    Taken.listed h id (.nil (ready_startState source text options) rfl)
  rcases hlisted.takes_flat id hr hflat hstop with ⟨node, after, htakes, hbehind⟩ |
    hcrash
  · refine .inl ⟨node, after, htakes, hbehind, fun output hparse => ?_⟩
    obtain ⟨output', portions, last, hparse', hportions, hitems, -⟩ :=
      (parse_portioned source text options).resolve_right (not_crashes (by rw [hparse]; rfl))
    obtain rfl := Except.ok.inj (hparse.symm.trans hparse')
    obtain ⟨later, rfl, hlater⟩ := h.portioned hportions
    obtain ⟨more, rfl, hmore⟩ := (Taken.cons htakes .nil).portioned hlater
    exact ⟨more, last, hmore, hitems⟩
  · exact .inr hcrash

/-- A closing parenthesis that stands there. -/
def parenAt (offset : Nat) : Token := ⟨Symbol.rightParen, [')'], ⟨⟨0⟩, offset, offset + 1⟩⟩

/-- A semicolon that stands there. -/
def semicolonAt (offset : Nat) : Token := ⟨Symbol.semicolon, [';'], ⟨⟨0⟩, offset, offset + 1⟩⟩

/-- Two statements of a parenthesis each, and one that is well formed. -/
theorem rest_parens (options : ParseOptions) :
    (startState ⟨0⟩ ") ; ) ; x;".toList options).rest =
      [parenAt 0] ++ semicolonAt 2 :: ([parenAt 4] ++ semicolonAt 6 ::
        [⟨.identifier, ['x'], ⟨⟨0⟩, 8, 9⟩⟩, semicolonAt 9]) := by
  show (tokenize ⟨0⟩ _).1.filter _ = _
  decide +kernel

/-- Two broken statements, one after the other, are an item each. -/
theorem parse_confines_parens : ∃ first second middle last,
    Taken (statementOrError (level 257)) ⟨⟨0⟩, ") ; ) ; x;".toList, {}⟩
      (startState ⟨0⟩ ") ; ) ; x;".toList {}) [.item first [parenAt 0, semicolonAt 2]] middle ∧
    Takes (statementOrError (level 257)) ⟨⟨0⟩, ") ; ) ; x;".toList, {}⟩ middle
      (.item second [parenAt 4, semicolonAt 6]) last ∧
    last.rest = [⟨.identifier, ['x'], ⟨⟨0⟩, 8, 9⟩⟩, semicolonAt 9] := by
  let context : Context := ⟨⟨0⟩, ") ; ) ; x;".toList, {}⟩
  have hplain : ¬∃ failure, Overflows context
      (startState ⟨0⟩ ") ; ) ; x;".toList {}).rest failure := by
    rw [rest_parens]
    rintro ⟨failure, hover⟩
    exact not_overflows (by decide) (by decide) hover
  obtain ⟨first, middle, hfirst, hmiddle, -⟩ :=
    (parse_confines .nil (rest_parens {}) (by decide) rfl).resolve_right
      fun ⟨failure, _, _, hover⟩ => hplain ⟨failure, hover⟩
  have htaken := Taken.cons hfirst .nil
  obtain ⟨second, last, hsecond, hlast, -⟩ :=
    (parse_confines htaken hmiddle (by decide) rfl).resolve_right
      fun ⟨failure, _, _, hover⟩ => hplain ⟨failure, hover⟩
  exact ⟨first, second, middle, last, htaken, hsecond, hlast⟩

/-- Whether a parser has come to a value. -/
def comesOut {α : Type} : EStateM.Result Stop State α → Bool
  | .ok .. => true
  | .error .. => false

/-- A statement whose number has an exponent of no size is no item. -/
theorem not_confines_leastExponent :
    ¬∀ (text : List Char) (options : ParseOptions) (earlier : List Portion) (state : State)
      (words behind : List Token) (stop : Token),
      options.suppressionWindow < Text.wordBound →
      Taken (statementOrError (level (options.maxDepth + 1))) ⟨⟨0⟩, text, options⟩
        (startState ⟨0⟩ text options) earlier state →
      state.rest = words ++ stop :: behind → Flat words → stop.kind = Symbol.semicolon →
      ∃ node after, Takes (statementOrError (level (options.maxDepth + 1)))
        ⟨⟨0⟩, text, options⟩ state (.item node (words ++ [stop])) after ∧ after.rest = behind := by
  intro hall
  let text := "1e-9223372036854775808; x;".toList
  let number : Token := ⟨.float, "1e-9223372036854775808".toList, ⟨⟨0⟩, 0, 22⟩⟩
  have hrest : (startState ⟨0⟩ text {}).rest =
      [number] ++ semicolonAt 22 :: [⟨.identifier, ['x'], ⟨⟨0⟩, 24, 25⟩⟩, semicolonAt 25] := by
    decide +kernel
  obtain ⟨node, after, htakes, -⟩ :=
    hall text {} [] _ _ _ _ (by decide) .nil hrest (by decide) rfl
  have hcrash : comesOut (statementOrError (level 257) ⟨⟨0⟩, text, {}⟩
      (startState ⟨0⟩ text {})) = false := by decide +kernel
  rw [htakes.ok_of_item] at hcrash
  cases hcrash

end OpenQasm.Grammar
