import OpenQasm.Proofs.Grammar.Calibrations
import OpenQasm.Proofs.Literal.Problems

/-!
# Literals of a program

A number is read as a literal of the kind that its token tells, or as an imaginary one with the `im`
behind it. What is read then is the text from the number to the `im`, comments and all, although the
parser does not see the comments between them.
-/

namespace OpenQasm.Grammar

open Token (isNumber isSuffixLetter)

section
variable {inner : Level} {context : Context} {state : State} {token im : Token} {rest : List Token}

/-- With `im` behind it, a number without a suffix is read up to there. -/
theorem number_merged (hk : token.kind = .integer ∨ token.kind = .float)
    (him : im.kind = Keyword.kwIm) (hr : state.rest.head? = some im) :
    number token context state =
      literal ((Text.slice? context.text token.span.start im.span.stop).getD [])
        ⟨token.span.source, token.span.start, im.span.stop⟩ .imaginary context
        (State.pass 1 state) := by
  unfold number
  rw [bind_of_ok (current_eq context state), hr]
  dsimp only
  rw [if_pos (by simpa [him] using hk)]
  rfl

/-- Else it is read by itself. -/
theorem number_single (hk : token.kind = .integer ∨ token.kind = .float →
      ∀ im ∈ state.rest.head?, im.kind ≠ Keyword.kwIm) :
    number token context state = number.single token context state := by
  unfold number
  rw [bind_of_ok (current_eq context state)]
  cases hhead : state.rest.head? with
  | none => rfl
  | some im =>
    dsimp only
    rw [if_neg]
    intro hmerges
    simp only [Bool.and_eq_true, Bool.or_eq_true, beq_iff_eq] at hmerges
    exact hk hmerges.1 im hhead hmerges.2

/-- Where a number is ahead it is the primary expression. -/
theorem primary_number (hk : isNumber token.kind) (hr : state.rest = token :: rest) :
    primary inner context state = number token context (State.pass 1 state) := by
  unfold primary
  rw [bind_of_ok (current_eq context state), hr, List.head?_cons]
  dsimp only
  unfold primaryAt
  cases hkind : token.kind <;> first | rfl | (rw [hkind] at hk; cases hk)

/-- Two tokens are passed one by one. -/
theorem pass_pass (hr : state.rest = token :: rest) :
    State.pass 1 (State.pass 1 state) = State.pass 2 state := by
  simp only [State.pass, hr]

/-- A number ahead is read as a literal. -/
theorem primary_readAs (hk : isNumber token.kind) (hr : state.rest = token :: rest) :
    ∃ text span kind n, ReadAs context token rest text span kind n ∧
      primary inner context state = literal text span kind context (State.pass n state) := by
  have hrest := rest_pass hr
  rw [primary_number hk hr]
  by_cases hmerged : (token.kind = .integer ∨ token.kind = .float) ∧
      ∃ im, rest.head? = some im ∧ im.kind = Keyword.kwIm
  · obtain ⟨hplain, im, hhead, him⟩ := hmerged
    refine ⟨_, _, _, _, .merged hplain hhead him, ?_⟩
    rw [number_merged hplain him (hrest ▸ hhead), pass_pass hr]
  · have hnot : token.kind = .integer ∨ token.kind = .float →
        ∀ im ∈ rest.head?, im.kind ≠ Keyword.kwIm :=
      fun hplain im hhead him => hmerged ⟨hplain, im, hhead, him⟩
    have hkind : token.kind = .integer ∨ token.kind = .float ∨ token.kind = .suffixed := by
      cases hkind : token.kind <;> simp_all [isNumber]
    rw [number_single (hrest ▸ hnot)]
    exact ⟨_, _, _, _, .alone hkind hnot, rfl⟩

end

/-! ## Texts of literals -/

section
variable {source : SourceId} {text : List Char} {token im : Token} {front gap back : List Token}

/-- Where two tokens stand, what stands between them, and the text from the one to the other. -/
theorem exists_between (hw : Text.width text ≤ maxOffset)
    (ht : (tokenize source text).1 = front ++ token :: (gap ++ im :: back)) :
    ∃ before between after, text = before ++ (token.text ++ (between ++ (im.text ++ after))) ∧
      Tiled source (Text.width (before ++ token.text)) between gap ∧
      token.span = ⟨source, Text.width before, Text.width (before ++ token.text)⟩ ∧
      im.span.stop = Text.width (before ++ (token.text ++ (between ++ im.text))) ∧
      Text.slice? text token.span.start im.span.stop =
        some (token.text ++ (between ++ im.text)) := by
  have hstop : (Lexer.ofText source text).stop = Text.width text := Nat.zero_add _
  have htiled : Tiled source 0 text (tokenize source text).1 :=
    (Lexer.ofText source text).drained_drain.tiled (hstop ▸ hw)
  rw [ht] at htiled
  obtain ⟨before, rest, htext, -, -, htoken, hrest⟩ := htiled.split
  obtain ⟨between, after, rfl, hbetween, -, him, -⟩ := hrest.split
  rw [Nat.zero_add, ← Text.width_append] at htoken hbetween
  have hend : im.span.stop = Text.width (before ++ (token.text ++ (between ++ im.text))) := by
    rw [him]
    simp [Nat.add_assoc]
  have hslice := Text.slice?_append before (token.text ++ (between ++ im.text)) after
  refine ⟨before, between, after, htext, hbetween, htoken, hend, ?_⟩
  rw [htext, htoken, hend, Text.width_append before]
  simpa using hslice

/-- A number ahead was scanned as one. -/
theorem numbered_ahead {rest : List Token}
    (ht : (tokenize source text).1.filter (!·.kind.isTrivia) = front ++ token :: rest)
    (hk : isNumber token.kind) :
    Token.Numbered token.kind token.text ∧ Token.BeginsNumber token.text := by
  have hm : token ∈ (tokenize source text).1.filter (!·.kind.isTrivia) := by
    rw [ht]
    exact List.mem_append_right _ List.mem_cons_self
  exact tokenize_numbered (List.mem_of_mem_filter hm) hk

/-- What the text of a number with the `im` behind it begins with. -/
theorem beginsNumber_slice? {rest : List Token} (hw : Text.width text ≤ maxOffset)
    (ht : (tokenize source text).1.filter (!·.kind.isTrivia) = front ++ token :: rest)
    (hk : isNumber token.kind) (him : rest.head? = some im) :
    Token.BeginsNumber ((Text.slice? text token.span.start im.span.stop).getD []) := by
  obtain ⟨-, hbegins⟩ := numbered_ahead ht hk
  obtain ⟨rest, rfl⟩ := List.head?_eq_some_iff.1 him
  obtain ⟨front, later, htokens, hlater⟩ := exists_of_filter_eq ht
  obtain ⟨gap, back, rfl, -⟩ := List.filter_eq_cons_iff.1 hlater
  obtain ⟨_, between, _, -, -, -, -, hslice⟩ := exists_between hw htokens
  rw [hslice]
  exact hbegins.append _

/-- What may be wrong with a number of a program. -/
theorem ReadAs.problem {options : ParseOptions} {rest : List Token} {written : List Char}
    {span : Span} {kind : LiteralKind} {n : Nat} {problem : LiteralError}
    (h : ReadAs ⟨source, text, options⟩ token rest written span kind n)
    (hw : Text.width text ≤ maxOffset)
    (ht : (tokenize source text).1.filter (!·.kind.isTrivia) = front ++ token :: rest)
    (hk : isNumber token.kind) (hread : Literal.read written kind = .error problem) :
    problem.isForeseen ∨ problem = .empty ∧ kind = .integer ∧ Literal.BareRadix written := by
  obtain ⟨hnumbered, hbegins⟩ := numbered_ahead ht hk
  cases h with
  | merged _ him _ =>
    have hslice := beginsNumber_slice? hw ht hk him
    rcases Literal.read_imaginary_problem hslice hread with hproblem | ⟨-, rfl⟩
    · exact .inl hproblem.isForeseen
    · exact .inl rfl
  | single hkind _ =>
    rcases hkind with ⟨hkind, rfl⟩ | ⟨hkind, rfl⟩
    · rw [hkind] at hnumbered
      rcases Literal.integer_problem hnumbered hbegins hread with rfl | rfl | ⟨rfl, hbare⟩
      · exact .inl rfl
      · exact .inl rfl
      · exact .inr ⟨rfl, rfl, hbare⟩
    · rcases Literal.read_float_problem hbegins hread with hproblem | ⟨_, rfl⟩
      · exact .inl hproblem.isForeseen
      · exact .inl rfl
  | suffixed hkind =>
    rw [hkind] at hnumbered
    obtain ⟨number, suffix, -, -, -, -, hproblem⟩ := Literal.suffixed_problem hnumbered hbegins
    rcases hproblem problem hread with hproblem | rfl
    · exact .inl hproblem.isForeseen
    · exact .inl rfl

/-- What may be wrong with a number of a program is no digit of another radix and no missing unit,
and there is something to read, unless it is a radix mark without a digit. One with a suffix is cut
before its letters, and what may be wrong is how it is written and which unit it has. -/
theorem number_problems (inner : Level) (options : ParseOptions) {state : State}
    {rest : List Token} (hw : Text.width text ≤ maxOffset)
    (ht : (tokenize source text).1.filter (!·.kind.isTrivia) = front ++ token :: rest)
    (hk : isNumber token.kind) (hr : state.rest = token :: rest) :
    let context : Context := ⟨source, text, options⟩
    ∃ written span kind n, ReadAs context token rest written span kind n ∧
      primary inner context state = literal written span kind context (State.pass n state) ∧
      (∀ digit radix, Literal.read written kind ≠ .error (.invalidDigit digit radix)) ∧
      (∀ number, Literal.read written kind ≠ .error (.missingUnit number)) ∧
      (Literal.read written kind = .error .empty ↔ kind = .integer ∧ Literal.BareRadix written) ∧
      (token.kind = .suffixed → ∃ number suffix, Literal.splitNumber written = (number, suffix) ∧
        written = token.text ∧ written = number ++ suffix ∧ suffix ≠ [] ∧
        (∀ c ∈ suffix, isSuffixLetter c) ∧
        ∀ problem, Literal.read written kind = .error problem →
          problem = .misplacedSeparator number ∨ problem = .exponentOutOfRange number ∨
            problem = .overflow ∨ problem = .unknownUnit suffix) := by
  intro context
  obtain ⟨written, span, kind, n, hreadAs, hprimary⟩ := @primary_readAs inner context _ _ _ hk hr
  have hproblem := fun problem => @ReadAs.problem _ _ _ _ _ _ _ _ _ _ problem hreadAs hw ht hk
  refine ⟨written, span, kind, n, hreadAs, hprimary, ?_, ?_, ⟨?_, ?_⟩, ?_⟩
  · intro digit radix hread
    rcases hproblem _ hread with h | ⟨h, -⟩ <;> cases h
  · intro number hread
    rcases hproblem _ hread with h | ⟨h, -⟩ <;> cases h
  · intro hread
    rcases hproblem _ hread with h | ⟨-, hbare⟩
    · cases h
    · exact hbare
  · rintro ⟨rfl, hbare⟩
    exact Literal.read_bareRadix hbare
  · intro hkind
    obtain ⟨hnumbered, hbegins⟩ := numbered_ahead ht hk
    rw [hkind] at hnumbered
    obtain ⟨number, suffix, hsplit, htext, hne, hletters, hsuffixed⟩ :=
      Literal.suffixed_problem hnumbered hbegins
    cases hreadAs with
    | merged hplain _ _ => rcases hplain with h | h <;> cases hkind.symm.trans h
    | single hplain _ => rcases hplain with ⟨h, -⟩ | ⟨h, -⟩ <;> cases hkind.symm.trans h
    | suffixed _ =>
      refine ⟨number, suffix, hsplit, rfl, htext, hne, hletters, fun problem hread => ?_⟩
      rcases hsuffixed problem hread with (h | h | h) | h <;> simp only [h, true_or, or_true]

/-- An exponent mark without an exponent belongs to the suffix. -/
theorem number_problems_exponentMark : ∃ text token written span kind n,
    text = "1exs".toList ∧ Text.width text ≤ maxOffset ∧
      (startState ⟨0⟩ text {}).rest = [token] ∧ isNumber token.kind ∧
      ReadAs ⟨⟨0⟩, text, {}⟩ token [] written span kind n ∧
      primary (level 1) ⟨⟨0⟩, text, {}⟩ (startState ⟨0⟩ text {}) =
        literal written span kind ⟨⟨0⟩, text, {}⟩ (State.pass n (startState ⟨0⟩ text {})) ∧
      Literal.read written kind ≠ .error .empty ∧
      Literal.splitNumber written = ("1".toList, "exs".toList) := by
  let text := "1exs".toList
  let token : Token := ⟨.suffixed, text, ⟨⟨0⟩, 0, 4⟩⟩
  have hwidth : Text.width text ≤ maxOffset := by decide +kernel
  have hrest : (startState ⟨0⟩ text {}).rest = [] ++ token :: [] := by decide +kernel
  obtain ⟨written, span, kind, n, hreadAs, hprimary, -, -, hempty, hsuffixed⟩ :=
    number_problems (level 1) {} hwidth hrest rfl hrest
  obtain ⟨_, _, _, rfl, -⟩ := hsuffixed rfl
  have hsplit : Literal.splitNumber text = ("1".toList, "exs".toList) := by decide +kernel
  refine ⟨text, token, text, span, kind, n, rfl, hwidth, hrest, rfl, hreadAs, hprimary, ?_, hsplit⟩
  intro hread
  obtain ⟨mark, -, hmark⟩ := (hempty.1 hread).2
  cases hmark

/-- A radix mark without a digit is read as an integer, if the lexer takes what stands behind it for
the beginning of a letter. -/
theorem not_number_foreseen :
    ¬∀ source text options front token rest written span kind n,
      (tokenize source text).1.filter (!·.kind.isTrivia) = front ++ token :: rest →
      isNumber token.kind →
      ReadAs ⟨source, text, options⟩ token rest written span kind n →
      ∀ problem, Literal.read written kind = .error problem → problem.isForeseen := by
  intro hall
  let token : Token := ⟨.integer, ['0', 'x'], ⟨⟨0⟩, 0, 2⟩⟩
  let other : Token := ⟨.error, ['²'], ⟨⟨0⟩, 2, 4⟩⟩
  have htokens : (tokenize ⟨0⟩ "0x²".toList).1.filter (!·.kind.isTrivia) =
      [] ++ token :: [other] := by decide +kernel
  have hreadAs : ReadAs ⟨⟨0⟩, "0x²".toList, {}⟩ token [other] ['0', 'x'] token.span .integer 1 := by
    refine .single (.inl ⟨rfl, rfl⟩) ?_
    rintro im ⟨⟩
    decide
  cases hall _ _ _ _ _ _ _ _ _ _ htokens rfl hreadAs .empty rfl

/-! ## Imaginary numbers -/

/-- A number that can be read is a literal. -/
theorem literal_ok {context : Context} {state : State} {written : List Char} {span : Span}
    {kind : LiteralKind} {value : Literal} (h : Literal.read written kind = .ok value) :
    ∃ id builder, literal written span kind context state =
      .ok ⟨id, .literal value, span⟩ { state with builder } := by
  unfold literal
  rw [h]
  exact ⟨_, _, rfl⟩

/-- One that cannot is an error node. -/
theorem literal_error {context : Context} {state : State} {written : List Char} {span : Span}
    {kind : LiteralKind} {problem : LiteralError} (h : Literal.read written kind = .error problem)
    (hne : problem ≠ .overflow) :
    ∃ id builder, literal written span kind context state =
      .ok ⟨id, .error, span⟩ { state with
        builder
        diagnostics := state.diagnostics.report .literalError span problem.message } := by
  unfold literal
  rw [h]
  cases problem with
  | overflow => exact absurd rfl hne
  | _ => exact ⟨_, _, rfl⟩

/-- The word that makes a number imaginary. -/
theorem text_of_kwIm (hm : im ∈ (tokenize source text).1) (him : im.kind = Keyword.kwIm) :
    im.text = ['i', 'm'] := by
  obtain ⟨_, _, hnext⟩ := (Lexer.ofText source text).drained_drain.exists_next? hm
  exact Keyword.text_of_word (by decide) ((Lexer.next?_apt hnext).keyword .kwIm him)

/-- What separates tokens is blank. -/
theorem isBlank_of_isSpace {c : Char} (h : Token.isSpace c) : Text.isBlank c := by
  have hblank : [' ', '\t', '\r', '\n', '\x0c'].all Text.isBlank := by decide
  exact List.all_eq_true.1 hblank c ((Token.isSpace_iff c).1 h)

/-- With an `im` and perhaps comments behind it, a number without a suffix is read with all that
stands up to the end of the `im`. -/
theorem exists_merged (inner : Level) (options : ParseOptions) {state : State} {rest : List Token}
    (hw : Text.width text ≤ maxOffset)
    (ht : (tokenize source text).1 = front ++ token :: (gap ++ im :: back))
    (hk : token.kind = .integer ∨ token.kind = .float) (him : im.kind = Keyword.kwIm)
    (hr : state.rest = token :: im :: rest) :
    ∃ before between after, text = before ++ (token.text ++ (between ++ (['i', 'm'] ++ after))) ∧
      Tiled source (Text.width (before ++ token.text)) between gap ∧
      im.span.stop = Text.width (before ++ (token.text ++ (between ++ ['i', 'm']))) ∧
      primary inner ⟨source, text, options⟩ state =
        literal (token.text ++ (between ++ ['i', 'm'])) ⟨source, token.span.start, im.span.stop⟩
          .imaginary ⟨source, text, options⟩ (State.pass 2 state) := by
  obtain ⟨before, between, after, htext, hbetween, htoken, hstop, hslice⟩ := exists_between hw ht
  have him' : im.text = ['i', 'm'] := text_of_kwIm (by rw [ht]; simp) him
  rw [him'] at htext hstop hslice
  refine ⟨before, between, after, htext, hbetween, hstop, ?_⟩
  have hnumber : isNumber token.kind = true := by
    rcases hk with hk | hk <;> rw [hk] <;> rfl
  have hhead : (State.pass 1 state).rest.head? = some im := by
    rw [rest_pass hr]
    rfl
  have hsource : token.span.source = source := by rw [htoken]
  rw [primary_number hnumber hr, number_merged hk him hhead, pass_pass hr, hslice, hsource]
  rfl

/-- A number is imaginary if only blanks stand between it and the `im`. Comments between them are
taken for a part of its suffix, and no suffix is like that. -/
theorem number_imaginary (inner : Level) (options : ParseOptions) {state : State}
    {rest : List Token} {value : Decimal} (hw : Text.width text ≤ maxOffset)
    (ht : (tokenize source text).1 = front ++ token :: (gap ++ im :: back))
    (hg : ∀ comment ∈ gap, comment.kind.isTrivia)
    (hk : token.kind = .integer ∨ token.kind = .float) (him : im.kind = Keyword.kwIm)
    (hvalue : Literal.read token.text .float = .ok (.float value))
    (hr : state.rest = token :: im :: rest) :
    let context : Context := ⟨source, text, options⟩
    let span : Span := ⟨source, token.span.start, im.span.stop⟩
    (gap = [] → ∃ placed after, primary inner context state = .ok placed after ∧
      placed.kind = .literal (.imaginary value) ∧ placed.span = span ∧ after.rest = rest ∧
      after.diagnostics = state.diagnostics) ∧
    ∀ comment more, gap = comment :: more → ∃ suffix placed after,
      primary inner context state = .ok placed after ∧ placed.kind = .error ∧
      placed.span = span ∧ after.rest = rest ∧
      Text.slice? text comment.span.start im.span.stop = some suffix ∧
      after.diagnostics = state.diagnostics.report .literalError span
        (LiteralError.unexpectedSuffix suffix .imaginary).message := by
  intro context span
  obtain ⟨before, between, after, htext, hbetween, hstop, hprimary⟩ :=
    exists_merged inner options hw ht hk him hr
  have hpass : (State.pass 2 state).rest = rest := by
    rw [← pass_pass hr, rest_pass (rest_pass hr)]
  have hdiagnostics : (State.pass 2 state).diagnostics = state.diagnostics := by rw [pass_eq]
  constructor
  · rintro rfl
    cases hbetween with
    | blanks hblanks =>
      have hread := Literal.read_imaginary_apart hvalue
        fun c hc => isBlank_of_isSpace (hblanks c hc)
      obtain ⟨id, builder, hliteral⟩ := literal_ok hread
      exact ⟨_, _, hprimary.trans hliteral, rfl, rfl, hpass, hdiagnostics⟩
  · rintro comment more rfl
    cases hbetween with
    | @token _ blanks tail _ _ hblanks _ hspan _ =>
      have hslash : comment.text.head? = some '/' :=
        head?_of_isTrivia (by rw [ht]; simp) (hg comment List.mem_cons_self)
      have hsuffix : (comment.text ++ (tail ++ ['i', 'm'])).head? = some '/' := by
        rw [List.head?_append, hslash]
        rfl
      have hread := Literal.read_imaginary_behind hvalue
        (fun c hc => isBlank_of_isSpace (hblanks c hc)) hsuffix
      obtain ⟨id, builder, hliteral⟩ := literal_error hread nofun
      rw [List.append_assoc, List.append_assoc] at hprimary
      refine ⟨comment.text ++ (tail ++ ['i', 'm']), _, _, hprimary.trans hliteral, rfl, rfl, hpass,
        ?_, congrArg (Diagnostics.report · _ _ _) hdiagnostics⟩
      have hslice := Text.slice?_append (before ++ token.text ++ blanks)
        (comment.text ++ (tail ++ ['i', 'm'])) after
      rw [htext, hspan, hstop]
      simpa [Nat.add_assoc] using hslice

/-- A number with a blank before its `im`, and one with a comment there. -/
theorem number_imaginary_gaps :
    (∃ placed after, primary (level 1) ⟨⟨0⟩, "3 im".toList, {}⟩ (startState ⟨0⟩ "3 im".toList {}) =
        .ok placed after ∧
      placed.kind = .literal (.imaginary ⟨3, 0⟩) ∧ placed.span = ⟨⟨0⟩, 0, 4⟩ ∧ after.rest = [] ∧
      after.diagnostics = {}) ∧
    ∃ placed after, primary (level 1) ⟨⟨0⟩, "3/**/im".toList, {}⟩
        (startState ⟨0⟩ "3/**/im".toList {}) = .ok placed after ∧
      placed.kind = .error ∧ placed.span = ⟨⟨0⟩, 0, 7⟩ ∧ after.rest = [] ∧
      after.diagnostics.length = 1 := by
  let number : Token := ⟨.integer, ['3'], ⟨⟨0⟩, 0, 1⟩⟩
  have hvalue : Literal.read number.text .float = .ok (.float ⟨3, 0⟩) := by decide +kernel
  constructor
  · let im : Token := ⟨Keyword.kwIm, ['i', 'm'], ⟨⟨0⟩, 2, 4⟩⟩
    have htokens : (tokenize ⟨0⟩ "3 im".toList).1 = [] ++ number :: ([] ++ im :: []) := by
      decide +kernel
    have hrest : (startState ⟨0⟩ "3 im".toList {}).rest = [number, im] := by decide +kernel
    have himaginary :=
      number_imaginary (level 1) {} (by decide +kernel) htokens nofun (.inl rfl) rfl hvalue hrest
    exact himaginary.1 rfl
  · let comment : Token := ⟨.blockComment, "/**/".toList, ⟨⟨0⟩, 1, 5⟩⟩
    let im : Token := ⟨Keyword.kwIm, ['i', 'm'], ⟨⟨0⟩, 5, 7⟩⟩
    have htokens : (tokenize ⟨0⟩ "3/**/im".toList).1 = [] ++ number :: ([comment] ++ im :: []) := by
      decide +kernel
    have hrest : (startState ⟨0⟩ "3/**/im".toList {}).rest = [number, im] := by decide +kernel
    have himaginary :=
      number_imaginary (level 1) {} (by decide +kernel) htokens (by decide) (.inl rfl) rfl
        hvalue hrest
    obtain ⟨suffix, placed, after, hprimary, hkind, hspan, hafter, -, hdiagnostics⟩ :=
      himaginary.2 comment [] rfl
    exact ⟨placed, after, hprimary, hkind, hspan, hafter, by rw [hdiagnostics]; rfl⟩

/-- A comment within an imaginary number breaks it. -/
theorem not_number_imaginary_comment :
    ¬∀ inner source text options state front token gap (im : Token) back rest value,
      (tokenize source text).1 = front ++ token :: (gap ++ im :: back) →
      (∀ comment ∈ gap, comment.kind.isTrivia) →
      token.kind = .integer ∨ token.kind = .float → im.kind = Keyword.kwIm →
      Literal.read token.text .float = .ok (.float value) →
      state.rest = token :: im :: rest →
      ∃ placed after, primary inner ⟨source, text, options⟩ state = .ok placed after ∧
        placed.kind = .literal (.imaginary value) := by
  intro hall
  let text := "3/**/im".toList
  let number : Token := ⟨.integer, ['3'], ⟨⟨0⟩, 0, 1⟩⟩
  let im : Token := ⟨Keyword.kwIm, ['i', 'm'], ⟨⟨0⟩, 5, 7⟩⟩
  have htokens : (tokenize ⟨0⟩ text).1 =
      [] ++ number :: ([⟨.blockComment, "/**/".toList, ⟨⟨0⟩, 1, 5⟩⟩] ++ im :: []) := by
    decide +kernel
  have hvalue : Literal.read ['3'] .float = .ok (.float ⟨3, 0⟩) := by decide +kernel
  have hrest : (startState ⟨0⟩ text {}).rest = [number, im] := by decide +kernel
  obtain ⟨placed, after, hprimary, hkind⟩ :=
    hall (level 1) _ _ {} _ _ _ _ _ _ _ _ htokens (by decide) (.inl rfl) rfl hvalue hrest
  have hread : Literal.read ((Text.slice? text 0 7).getD []) .imaginary =
      .error (.unexpectedSuffix "/**/im".toList .imaginary) := by decide +kernel
  have hhead : (State.pass 1 (startState ⟨0⟩ text {})).rest.head? = some im := by
    rw [rest_pass hrest]
    rfl
  rw [primary_number rfl hrest, number_merged (.inl rfl) rfl hhead] at hprimary
  obtain ⟨id, builder, hliteral⟩ := @literal_error ⟨⟨0⟩, text, {}⟩
    (State.pass 1 (State.pass 1 (startState ⟨0⟩ text {}))) _ ⟨⟨0⟩, 0, 7⟩ _ _ hread nofun
  cases hliteral.symm.trans hprimary
  cases hkind

end

end OpenQasm.Grammar
