import OpenQasm.Program.Basic
import OpenQasm.Proofs.Grammar.Outcomes
import OpenQasm.Proofs.Grammar.Portions

/-!
# The version of a text

A text states its version in a version statement that is its very first statement. The parser puts
that version in force as it reads it; whoever looks at the tree finds it in the first item. The two
differ on texts that begin with closing braces without a block, which leave no item behind.
-/

namespace OpenQasm.Grammar

/-- The version that some tokens state, if they begin with a whole version statement. -/
def statedVersion? : List Token → Option Version
  | keyword :: number :: semicolon :: _ =>
    if keyword.kind = Keyword.kwVersion ∧ (number.kind = .integer ∨ number.kind = .float) ∧
        semicolon.kind = Symbol.semicolon then
      version? number.text
    else none
  | _ => none

/-! ## The kind of a statement -/

/-- The nodes that a parser yields are of good kinds. -/
def Makes (good : NodeKind NodeId → Prop) (parser : Parser Placed) : Prop :=
  ∀ context state node after, parser context state = .ok node after → good node.kind

namespace Makes

variable {α : Type} {good : NodeKind NodeId → Prop} {first : Parser α}
  {next : α → Parser Placed}

/-- What a sequence makes its last parser makes. -/
theorem behind (h : ∀ value, Makes good (next value)) : Makes good (first >>= next) := by
  intro context state node after hok
  cases hfirst : first context state with
  | ok value middle =>
    rw [bind_of_ok hfirst] at hok
    exact h value context middle node after hok
  | error failure middle =>
    rw [bind_of_error hfirst] at hok
    cases hok

/-- A choice makes what both of its sides do. -/
theorem ite {c : Prop} [Decidable c] {yes no : Parser Placed} (hy : Makes good yes)
    (hn : Makes good no) : Makes good (if c then yes else no) := by
  split
  · exact hy
  · exact hn

/-- A node that is placed is what is made. -/
theorem place {kind : NodeKind Placed} {span : Span} (h : good (kind.map Placed.id)) :
    Makes good (place kind span) := by
  intro context state node after hok
  obtain ⟨id, builder, -, rfl, -⟩ := exists_of_place_ok hok
  exact h

/-- So is one that began earlier. -/
theorem placeFrom {start : Span} {kind : NodeKind Placed} (h : good (kind.map Placed.id)) :
    Makes good (placeFrom start kind) := .behind fun _ => .place h

/-- A report of an unexpected token makes nothing. -/
theorem unexpected {expected : String} : Makes good (unexpected expected) :=
  fun _ _ _ _ hok => absurd hok unexpected_ne_ok

end Makes

/-- A kind other than that of version statements. -/
def Unversioned (kind : NodeKind NodeId) : Prop := ∀ version, kind ≠ .versionPragma version

variable {inner : Level} {good : NodeKind NodeId → Prop}

/-- A gate call makes such a node. -/
theorem gateCall_makes (h : ∀ modifiers callee args duration operands,
    good (.gateCall modifiers callee args duration operands)) : Makes good (gateCall inner) := by
  iterate 7 refine .behind fun _ => ?_
  exact .placeFrom (h ..)

/-- So does an expression statement. -/
theorem expressionStatement_makes (h : ∀ expr, good (.exprStmt expr)) :
    Makes good (expressionStatement inner) := by
  iterate 3 refine .behind fun _ => ?_
  exact .placeFrom (h _)

/-- The declaration of a variable states no version. -/
theorem classicalDecl_makes : Makes Unversioned (classicalDecl inner) := by
  iterate 5 refine .behind fun _ => ?_
  refine .ite (.behind fun _ => ?_) (.behind fun _ => ?_)
  all_goals exact .behind fun _ => .behind fun _ => .placeFrom nofun

/-- An assignment makes such a node. -/
theorem assignment_makes (h : ∀ target op value, good (.assignment target op value)) :
    Makes good (assignment inner) := by
  iterate 3 refine .behind fun _ => ?_
  split
  · iterate 3 refine .behind fun _ => ?_
    exact .placeFrom (h ..)
  · exact .unexpected

/-- A declaration that begins with the keyword of a register or of a direction. -/
theorem registerDecl_makes {register : RegisterKind} :
    Makes Unversioned (registerDecl inner register) := by
  refine .behind fun next => ?_
  cases next with
  | none => exact .unexpected
  | some keyword =>
    iterate 8 refine .behind fun _ => ?_
    exact .placeFrom nofun

/-- The declaration of an input states no version. -/
theorem ioDecl_makes {direction : Direction} : Makes Unversioned (ioDecl inner direction) := by
  refine .behind fun next => ?_
  cases next with
  | none => exact .unexpected
  | some keyword =>
    iterate 7 refine .behind fun _ => ?_
    exact .place nofun

/-- Nor does the definition of a calibration. -/
theorem defcal_makes : Makes Unversioned defcal := by
  refine .behind fun _ => .behind fun next => ?_
  cases next with
  | none => exact .unexpected
  | some first =>
    refine .ite (.behind fun _ => ?_) ?_
    all_goals
      iterate 7 refine .behind fun _ => ?_
      exact .place nofun

/-- The node of a statement is the last one placed for it. -/
theorem keywordStart_makes {keyword : Keyword} (h : keyword ≠ .kwVersion) :
    Makes Unversioned (keywordStart inner keyword) := by
  unfold keywordStart
  split
  case h_1 => exact absurd rfl h
  case h_2 =>
    refine .behind fun _ => .behind fun _ => .ite (.behind fun _ => ?_) ?_
    all_goals exact .behind fun _ => .behind fun _ => .placeFrom nofun
  case h_5 | h_6 => exact registerDecl_makes
  case h_8 | h_9 => exact ioDecl_makes
  case h_16 => exact defcal_makes
  case h_18 | h_19 | h_20 =>
    iterate 3 refine .behind fun _ => ?_
    exact .placeFrom nofun
  case h_21 =>
    refine .behind fun _ => .behind fun _ => .ite (.behind fun _ => ?_) (.behind fun _ => ?_)
    all_goals exact .behind fun _ => .placeFrom nofun
  case h_22 =>
    iterate 4 refine .behind fun _ => ?_
    refine .ite (.behind fun _ => ?_) (.behind fun _ => ?_)
    all_goals exact .placeFrom nofun
  case h_30 =>
    iterate 3 refine .behind fun _ => ?_
    refine .ite (.behind fun _ => ?_) (.behind fun _ => ?_)
    all_goals exact .behind fun _ => .placeFrom nofun
  case h_31 | h_32 | h_33 | h_34 | h_35 => exact gateCall_makes nofun
  case h_36 =>
    refine .ite (.behind fun _ => .ite (expressionStatement_makes nofun) classicalDecl_makes) ?_
    exact .ite (expressionStatement_makes nofun) .unexpected
  case h_27 =>
    iterate 3 refine .behind fun _ => ?_
    exact .placeFrom nofun
  case h_11 | h_23 | h_24 | h_28 =>
    iterate 4 refine .behind fun _ => ?_
    exact .placeFrom nofun
  case h_4 | h_13 =>
    iterate 5 refine .behind fun _ => ?_
    exact .placeFrom nofun
  case h_15 =>
    iterate 4 refine .behind fun _ => ?_
    exact .place nofun
  case h_3 | h_17 =>
    iterate 5 refine .behind fun _ => ?_
    exact .place nofun
  case h_25 =>
    iterate 6 refine .behind fun _ => ?_
    exact .placeFrom nofun
  case h_29 =>
    iterate 6 refine .behind fun _ => ?_
    exact .place nofun
  case h_12 =>
    iterate 7 refine .behind fun _ => ?_
    exact .placeFrom nofun
  case h_10 | h_26 =>
    iterate 8 refine .behind fun _ => ?_
    exact .place nofun
  case h_7 =>
    iterate 9 refine .behind fun _ => ?_
    exact .place nofun
  case h_14 =>
    iterate 10 refine .behind fun _ => ?_
    exact .place nofun

/-- Only what begins with its keyword is a version statement. -/
theorem statement_makes {context : Context} {state after : State} {node : Placed}
    (h : statement inner context state = .ok node after)
    (hk : state.rest.head?.map Token.kind ≠ some Keyword.kwVersion) :
    Unversioned node.kind := by
  unfold statement at h
  rw [bind_of_ok (current_eq context state)] at h
  cases hr : state.rest with
  | nil =>
    rw [hr] at h
    exact absurd h unexpected_ne_ok
  | cons token rest =>
    rw [hr] at h hk
    dsimp only [List.head?_cons] at h
    refine (show Makes Unversioned _ from ?_) context state node after h
    split
    · next keyword hkeyword =>
      exact keywordStart_makes fun heq => hk (by rw [heq] at hkeyword; simp [hkeyword])
    · exact .behind fun _ => .place nofun
    · refine .behind fun _ => ?_
      unfold annotationLine
      exact .place nofun
    · iterate 3 refine .behind fun _ => ?_
      exact .placeFrom nofun
    · refine .behind fun _ => ?_
      split
      · exact gateCall_makes nofun
      · exact assignment_makes nofun
      · exact expressionStatement_makes nofun
    · exact .ite (expressionStatement_makes nofun) .unexpected

/-! ## Version statements -/

section
variable {context : Context} {state after : State} {node : Placed} {version : Version}

/-- A version is stated by the keyword, a number that is a version, and a semicolon. -/
theorem statedVersion?_eq_some {tokens : List Token} :
    statedVersion? tokens = some version ↔ ∃ keyword number semicolon rest,
      tokens = keyword :: number :: semicolon :: rest ∧ keyword.kind = Keyword.kwVersion ∧
      (number.kind = .integer ∨ number.kind = .float) ∧
      semicolon.kind = Symbol.semicolon ∧ version? number.text = some version := by
  constructor
  · intro h
    unfold statedVersion? at h
    split at h
    · next keyword number semicolon rest =>
      split at h
      · next hk => exact ⟨keyword, number, semicolon, rest, rfl, hk.1, hk.2.1, hk.2.2, h⟩
      · cases h
    · cases h
  · rintro ⟨keyword, number, semicolon, rest, rfl, hk, hn, hs, hv⟩
    rw [statedVersion?, if_pos ⟨hk, hn, hs⟩, hv]

/-- The version that is stated at the start of the text comes into force. -/
def State.stating (state : State) (version : Version) : Option Version :=
  if state.position = 0 then some version else state.version

/-- What is read of a version statement after its keyword. -/
def versionNumber (first : Bool) (start : Span) : Parser Placed := do
  match ← current with
  | some token =>
    if token.kind = .integer ∨ token.kind = .float then
      match version? token.text with
      | some version =>
        advance
        let _ ← expect Symbol.semicolon
        if first then modify fun state => { state with version := some version }
        placeFrom start (.versionPragma version)
      | none => failSyntax s!"invalid version number `{String.ofList token.text}`"
    else unexpected "version number"
  | none => unexpected "version number"

/-- The version statement reads its keyword and goes on with the number. -/
theorem versionStatement_eq : versionStatement = (do
    let first := (← get).position == 0
    let start := (← expect Keyword.kwVersion).span
    unless first do report .syntaxError start "the version pragma must be the first statement"
    versionNumber first start) := rfl

/-- A node without children can always be placed. -/
theorem placeFrom_versionPragma (context : Context) (state : State) (start : Span)
    (version : Version) : ∃ node builder,
    placeFrom start (.versionPragma version) context state = .ok node { state with builder } ∧
      node.kind = .versionPragma version := ⟨_, _, rfl, rfl⟩

/-- A number that is a version is read, and is the version in force if it comes first. -/
theorem versionNumber_ok {first : Bool} {start : Span} {number semicolon : Token}
    {rest : List Token} (hr : state.rest = number :: semicolon :: rest)
    (hn : number.kind = .integer ∨ number.kind = .float)
    (hs : semicolon.kind = Symbol.semicolon) (hv : version? number.text = some version) :
    ∃ node after, versionNumber first start context state = .ok node after ∧
      node.kind = .versionPragma version ∧
      after.version = if first then some version else state.version := by
  have hadvance : advance context state = .ok () (State.pass 1 state) := rfl
  have hpassed : State.pass 1 state = { state with
      rest := semicolon :: rest
      position := state.position + 1
      previousEnd := number.span.stop } := by
    rw [State.pass, hr]
    rfl
  have hexpect : expect Symbol.semicolon context (State.pass 1 state) =
      .ok semicolon (State.pass 1 (State.pass 1 state)) :=
    expect_ok_iff.2 ⟨rest, by rw [hpassed], hs, rfl⟩
  have hversion : (State.pass 1 (State.pass 1 state)).version = state.version := by
    rw [hpassed]
    rfl
  unfold versionNumber
  rw [bind_of_ok (current_eq context state), hr]
  dsimp only [List.head?_cons]
  rw [if_pos hn, hv]
  dsimp only
  rw [bind_of_ok hadvance, bind_of_ok hexpect]
  cases first with
  | false =>
    obtain ⟨node, builder, hplace, hkind⟩ :=
      placeFrom_versionPragma context (State.pass 1 (State.pass 1 state)) start version
    exact ⟨node, _, hplace, hkind, hversion⟩
  | true =>
    obtain ⟨node, builder, hplace, hkind⟩ := placeFrom_versionPragma context
      { State.pass 1 (State.pass 1 state) with version := some version } start version
    exact ⟨node, _, hplace, hkind, rfl⟩

/-- What a version statement at the start of the text comes to. -/
theorem versionStatement_stated {keyword number semicolon : Token} {rest : List Token}
    (hp : state.position = 0) (hr : state.rest = keyword :: number :: semicolon :: rest)
    (hk : keyword.kind = Keyword.kwVersion) (hn : number.kind = .integer ∨ number.kind = .float)
    (hs : semicolon.kind = Symbol.semicolon) (hv : version? number.text = some version) :
    versionStatement context state = placeFrom keyword.span (.versionPragma version) context
      { state with
        rest, position := 3, previousEnd := semicolon.span.stop, version := some version } := by
  let second : State := { state with
    rest := number :: semicolon :: rest, position := 1, previousEnd := keyword.span.stop }
  let third : State := { state with
    rest := semicolon :: rest, position := 2, previousEnd := number.span.stop }
  let last : State := { state with rest, position := 3, previousEnd := semicolon.span.stop }
  have hkeyword : expect Keyword.kwVersion context state = .ok keyword second := by
    refine expect_ok_iff.2 ⟨_, hr, hk, ?_⟩
    rw [State.pass, hr, hp]
    rfl
  have hnumber : advance context second = .ok () third := rfl
  have hsemicolon : expect Symbol.semicolon context third = .ok semicolon last :=
    expect_ok_iff.2 ⟨_, rfl, hs, rfl⟩
  rw [versionStatement_eq, get_bind, bind_of_ok hkeyword, hp]
  show versionNumber true keyword.span context second = _
  unfold versionNumber
  rw [bind_of_ok (current_eq context second)]
  dsimp only [second, List.head?_cons]
  rw [if_pos hn, hv]
  dsimp only
  rw [bind_of_ok hnumber, bind_of_ok hsemicolon, if_pos rfl, modify_bind]

/-- What is read as a version is such a number. -/
theorem exists_of_versionNumber_ok {first : Bool} {start : Span}
    (h : versionNumber first start context state = .ok node after) :
    ∃ number semicolon rest version, state.rest = number :: semicolon :: rest ∧
      (number.kind = .integer ∨ number.kind = .float) ∧ semicolon.kind = Symbol.semicolon ∧
      version? number.text = some version := by
  unfold versionNumber at h
  rw [bind_of_ok (current_eq context state)] at h
  cases hr : state.rest with
  | nil =>
    rw [hr] at h
    exact absurd h unexpected_ne_ok
  | cons number rest =>
    rw [hr] at h
    dsimp only [List.head?_cons] at h
    split at h
    · next hn =>
      cases hv : version? number.text with
      | none =>
        rw [hv] at h
        exact absurd h failSyntax_ne_ok
      | some version =>
        rw [hv] at h
        dsimp only at h
        rw [bind_of_ok (show advance context state = .ok () (State.pass 1 state) from rfl)] at h
        cases hexpect : expect Symbol.semicolon context (State.pass 1 state) with
        | error failure middle =>
          rw [bind_of_error hexpect] at h
          cases h
        | ok semicolon middle =>
          obtain ⟨rest', hrest, hs, -⟩ := expect_ok_iff.1 hexpect
          rw [State.pass, hr] at hrest
          have hrest : rest = semicolon :: rest' := hrest
          exact ⟨number, semicolon, rest', version, by rw [hrest], hn, hs, hv⟩
    · exact absurd h unexpected_ne_ok

/-- What comes after the keyword of a version statement is read in its place. -/
theorem versionStatement_of_keyword {keyword : Token} {rest : List Token}
    (hr : state.rest = keyword :: rest) (hk : keyword.kind = Keyword.kwVersion) :
    ∃ middle, middle.rest = rest ∧ middle.version = state.version ∧
      versionStatement context state =
        versionNumber (state.position == 0) keyword.span context middle := by
  have hexpect : expect Keyword.kwVersion context state = .ok keyword (State.pass 1 state) :=
    expect_ok_iff.2 ⟨rest, hr, hk, rfl⟩
  have hpassed : State.pass 1 state = { state with
      rest, position := state.position + 1, previousEnd := keyword.span.stop } := by
    rw [State.pass, hr]
    rfl
  rw [versionStatement_eq, get_bind, bind_of_ok hexpect]
  dsimp only
  split
  · exact ⟨_, by rw [hpassed], by rw [hpassed], rfl⟩
  · exact ⟨{ State.pass 1 state with diagnostics := _ }, by rw [hpassed], by rw [hpassed], rfl⟩

/-- A version statement that states a version is read. -/
theorem versionStatement_ok (h : statedVersion? state.rest = some version) :
    ∃ node after, versionStatement context state = .ok node after ∧
      node.kind = .versionPragma version ∧ after.version = state.stating version := by
  obtain ⟨keyword, number, semicolon, rest, hr, hk, hn, hs, hv⟩ := statedVersion?_eq_some.1 h
  obtain ⟨middle, hrest, hversion, heq⟩ := versionStatement_of_keyword hr hk
  obtain ⟨node, after, hok, hkind, hafter⟩ := versionNumber_ok hrest hn hs hv
  refine ⟨node, after, heq.trans hok, hkind, hafter.trans ?_⟩
  rw [State.stating, hversion]
  simp

/-- A version statement that is read states a version. -/
theorem exists_of_versionStatement_ok (h : versionStatement context state = .ok node after) :
    ∃ version, statedVersion? state.rest = some version ∧ node.kind = .versionPragma version ∧
      after.version = state.stating version := by
  have hstated : ∃ version, statedVersion? state.rest = some version := by
    cases hexpect : expect Keyword.kwVersion context state with
    | error failure middle =>
      rw [versionStatement_eq, get_bind, bind_of_error hexpect] at h
      cases h
    | ok keyword middle =>
      obtain ⟨rest, hr, hk, -⟩ := expect_ok_iff.1 hexpect
      obtain ⟨middle, hrest, -, heq⟩ := versionStatement_of_keyword hr hk
      obtain ⟨number, semicolon, rest', version, hrest', hn, hs, hv⟩ :=
        exists_of_versionNumber_ok (heq ▸ h)
      refine ⟨version, statedVersion?_eq_some.2 ⟨keyword, number, semicolon, rest', ?_⟩⟩
      exact ⟨by rw [hr, ← hrest, hrest'], hk, hn, hs, hv⟩
  obtain ⟨version, hversion⟩ := hstated
  obtain ⟨node', after', hok, hkind, hafter⟩ := versionStatement_ok hversion
  obtain ⟨rfl, rfl⟩ := EStateM.Result.ok.inj (hok.symm.trans h)
  exact ⟨version, hversion, hkind, hafter⟩

/-- Without the keyword no version is stated. -/
theorem statedVersion?_eq_none {tokens : List Token}
    (h : tokens.head?.map Token.kind ≠ some Keyword.kwVersion) : statedVersion? tokens = none := by
  refine Option.eq_none_iff_forall_not_mem.2 fun version hv => h ?_
  obtain ⟨keyword, number, semicolon, rest, rfl, hk, -⟩ := statedVersion?_eq_some.1 hv
  exact congrArg some hk

end

/-- A text starts with no kind but that of its first token. -/
theorem startsWith_eq_false {kind : TokenKind} {tokens : List Token}
    (h : tokens.head?.map Token.kind ≠ some kind) : startsWith kind tokens = false := by
  cases tokens with
  | nil => rfl
  | cons token rest => simpa [startsWith] using h

/-! ## Programs -/

/-- The version that a node states. -/
def statedBy? : NodeKind NodeId → Option Version
  | .versionPragma version => some version
  | _ => none

/-- A node of this kind states no version. -/
theorem statedBy?_of_unversioned {kind : NodeKind NodeId} (h : Unversioned kind) :
    statedBy? kind = none := by
  cases kind <;> first | rfl | exact absurd rfl (h _)

/-- The version in force behind the next statement: at the start of the text, the one that is stated
there. -/
def State.versionAhead (state : State) : Option Version :=
  (if state.position = 0 then statedVersion? state.rest else none).or state.version

/-- If none is stated ahead, the version ahead is that in force. -/
theorem State.versionAhead_of_none {state : State} (h : statedVersion? state.rest = none) :
    state.versionAhead = state.version := by
  rw [State.versionAhead, h, ite_self, Option.none_or]

/-- Behind the first token no version is ahead but the one in force. -/
theorem State.versionAhead_of_pos {state : State} (h : 0 < state.position) :
    state.versionAhead = state.version := by
  rw [State.versionAhead, if_neg (Nat.ne_of_gt h), Option.none_or]

/-- A version that is stated ahead is the version ahead. -/
theorem State.stating_eq {state : State} {version : Version}
    (h : statedVersion? state.rest = some version) :
    state.stating version = state.versionAhead := by
  rw [State.stating, State.versionAhead, h]
  split <;> rfl

namespace Reading

section
variable {reading : Reading} {levels : Nat} {start state after last : State} {node : Placed}
  {items : List Placed} {portions : List Portion}

/-- The node of a statement, or of an error in its place, states what the tokens ahead state, and
the version in force is changed by it at the start of the text only. -/
theorem item_version (hf : ¬reading.fair) (h : reading.Ready levels state)
    (hok : statementOrError (level levels) reading.context state = .ok node after) :
    statedBy? node.kind = statedVersion? state.rest ∧ after.version = state.versionAhead := by
  rcases statementOrError_cases (level_spec hf) h with ⟨node', after', hread, hend, hyields⟩ |
    ⟨failed, -, -, -, -, hend⟩ | ⟨failed, hfailed, hd, hend⟩ | ⟨failure, after, -, hend, -⟩
  · obtain ⟨rfl, rfl⟩ := EStateM.Result.ok.inj (hend.symm.trans hok)
    by_cases hk : state.rest.head?.map Token.kind = some Keyword.kwVersion
    · obtain ⟨token, rest, hr, hkeyword⟩ := exists_of_peek hk
      rw [statement_of_keyword hr hkeyword] at hread
      obtain ⟨version, hstated, hkind, hversion⟩ := exists_of_versionStatement_ok hread
      rw [hkind, hstated, hversion, State.stating_eq hstated]
      exact ⟨rfl, rfl⟩
    · have hnone := statedVersion?_eq_none hk
      rw [statedBy?_of_unversioned (statement_makes hread hk), hnone,
        State.versionAhead_of_none hnone]
      obtain ⟨base', read, ahead, hr, -, hheld, -⟩ := hyields
      exact ⟨rfl, hheld.version.trans (hr.version (.inr (startsWith_eq_false hk)))⟩
  · cases hend.symm.trans hok
  · obtain ⟨rfl, rfl⟩ := EStateM.Result.ok.inj (hend.symm.trans hok)
    have hnone : statedVersion? state.rest = none := by
      refine Option.eq_none_iff_forall_not_mem.2 fun version hstated => ?_
      obtain ⟨keyword, number, semicolon, rest, hr, hk, -⟩ := statedVersion?_eq_some.1 hstated
      obtain ⟨node, after, hread, -⟩ := versionStatement_ok hstated
      rw [statement_of_keyword hr hk] at hfailed
      cases hfailed.symm.trans hread
    rw [hnone, State.versionAhead_of_none hnone]
    exact ⟨rfl, hd.version⟩
  · cases hend.symm.trans hok

/-- What a program takes at once changes the version in force at the start of the text only. -/
theorem takes_version {portion : Portion} (hf : ¬reading.fair)
    (hs : reading.Listed levels start items state)
    (ht : Takes (statementOrError (level levels)) reading.context state portion after) :
    after.version = state.versionAhead ∧ 0 < after.position := by
  cases ht with
  | @stray token rest reported hr hk hok =>
    have hheld : reading.unfair.Held levels state [] (token :: rest) [] 0 reported :=
      (stray_runs hs hr).whenOk _ _ hok
    have hpassed : reading.unfair.Held levels state ([] ++ [token]) rest [] 0
        (State.pass 1 reported) := hheld.pass rfl fun hfair => hfair.elim
    have hnone : statedVersion? state.rest = none :=
      statedVersion?_eq_none (by rw [hr]; simp [hk])
    rw [State.versionAhead_of_none hnone]
    exact ⟨hpassed.version, hpassed.position_pos (by simp)⟩
  | @item token rest node after hr hk hok =>
    refine ⟨(item_version hf hs.ready hok).2, ?_⟩
    obtain ⟨base', read, ahead, -, hne, hheld, -⟩ :=
      (item_runs hf state token rest hs.ready hr hk).whenOk _ _ hok
    exact hheld.position_pos hne

end

end Reading

open Reading

section
variable {reading : Reading} {levels : Nat} {start state last : State} {items : List Placed}
  {portions : List Portion}

/-- A program puts in force what its text states at the very start. -/
theorem Portioned.version
    (h : Portioned (statementOrError (level levels)) reading.context state portions last)
    (hf : ¬reading.fair) (hs : reading.Listed levels start items state) :
    last.version = state.versionAhead := by
  induction h generalizing items with
  | done hnil => exact (State.versionAhead_of_none (hnil ▸ rfl)).symm
  | next htakes _ ih =>
    have hlisted := (hs.takes htakes fun token rest => item_runs hf _ token rest hs.ready).1
    obtain ⟨hversion, hpos⟩ := takes_version hf hs htakes
    rw [ih hlisted, State.versionAhead_of_pos hpos, hversion]

/-- The first statement of a program states what comes first behind the closing braces that are
passed over. -/
theorem Portioned.leading
    (h : Portioned (statementOrError (level levels)) reading.context state portions last)
    (hf : ¬reading.fair) (hs : reading.Listed levels start items state) :
    ((portions.filterMap Portion.item?).head?.bind fun item => statedBy? item.kind) =
      statedVersion? (state.rest.dropWhile (·.kind = Symbol.rightBrace)) := by
  induction h generalizing items with
  | done hnil => rw [hnil]; rfl
  | next htakes _ ih =>
    have ⟨hlisted, hsplit, _⟩ :=
      hs.takes htakes fun token rest => item_runs hf _ token rest hs.ready
    cases htakes with
    | @stray token rest reported hr hk hok =>
      rw [List.filterMap_cons_none rfl, ih hlisted, hsplit]
      exact congrArg statedVersion? (List.dropWhile_cons_of_pos (by simpa using hk)).symm
    | item hr hk hok =>
      rw [hr, List.dropWhile_cons_of_neg (by simpa using hk), ← hr]
      exact (item_version hf hs.ready hok).1

end

/-! ## Parses -/

/-- The version with which a source begins is that of its first item. -/
theorem leadingVersion?_eq {program : Program} {entry : SourceId} {tree : Tree}
    (h : program.tree? entry = some tree) {placed : List Placed}
    (hitems : tree.items.map tree.node? = placed.map fun item => some ⟨item.kind, item.span⟩) :
    (program.leadingVersion? entry).map Prod.fst =
      placed.head?.bind fun item => statedBy? item.kind := by
  unfold Program.leadingVersion?
  rw [h]
  cases hhead : tree.items with
  | nil =>
    rw [hhead] at hitems
    simp only [Option.bind_eq_bind, Option.bind_some, hhead, List.map_eq_nil_iff.1 hitems.symm]
    rfl
  | cons first rest =>
    obtain ⟨item, others, rfl⟩ : ∃ item others, placed = item :: others := by
      cases placed with
      | nil => rw [hhead] at hitems; cases hitems
      | cons item others => exact ⟨item, others, rfl⟩
    rw [hhead] at hitems
    have hnode : tree.node? first = some ⟨item.kind, item.span⟩ := (List.cons.inj hitems).1
    simp only [Option.bind_eq_bind, Option.bind_some, hhead, List.head?_cons, hnode]
    cases item.kind <;> rfl

/-- Closing braces that belong to no block, at the head of some tokens, are passed over. -/
def behindBraces (tokens : List Token) : List Token :=
  tokens.dropWhile (·.kind = Symbol.rightBrace)

/-- The version at the very start is that behind the braces, unless braces hide one. -/
theorem stated_eq_iff (tokens : List Token) :
    statedVersion? tokens = statedVersion? (behindBraces tokens) ↔
      ((statedVersion? (behindBraces tokens)).isSome →
        tokens.head?.map Token.kind ≠ some Symbol.rightBrace) := by
  by_cases hbrace : tokens.head?.map Token.kind = some Symbol.rightBrace
  · have hnone : statedVersion? tokens = none :=
      statedVersion?_eq_none fun hversion => nomatch hbrace.symm.trans hversion
    rw [hnone, eq_comm, ← Option.not_isSome_iff_eq_none]
    exact ⟨fun hno hsome => absurd hsome hno, fun himp hsome => himp hsome hbrace⟩
  · have hsame : behindBraces tokens = tokens := by
      cases tokens with
      | nil => rfl
      | cons token rest => exact List.dropWhile_cons_of_neg (by simpa using hbrace)
    rw [hsame]
    exact ⟨fun _ _ => hbrace, fun _ => rfl⟩

/-- A parse without a default version ends with the version in force that the text states at its
very start, if it states one. A program with the tree takes it to begin with the version that is
stated behind the closing braces at its head. So the two versions are one unless such braces stand
before a version statement. -/
theorem parse_states (source : SourceId) (text : List Char) (options : ParseOptions) :
    (∃ output root state tokens, parse source text options = .ok output ∧
      program ⟨source, text, options⟩ (startState source text options) = .ok root state ∧
      tokens = (startState source text options).rest ∧
      state.version = (statedVersion? tokens).or options.defaultVersion ∧
      ∀ (loaded : Program) (entry : SourceId), loaded.tree? entry = some output.tree →
        (loaded.leadingVersion? entry).map Prod.fst = statedVersion? (behindBraces tokens) ∧
        (options.defaultVersion = none →
          (state.version = (loaded.leadingVersion? entry).map Prod.fst ↔
            (statedVersion? (behindBraces tokens)).isSome →
              tokens.head?.map Token.kind ≠ some Symbol.rightBrace))) ∨
    Crashes source text options := by
  refine (parse_portioned source text options).imp_left ?_
  rintro ⟨output, portions, last, hparse, hportions, -, hitems, -⟩
  obtain ⟨root, state, hprogram, -⟩ := exists_of_parse_ok hparse
  obtain ⟨portions', last', _, _, hportions', hstate, -⟩ := program_portioned hprogram
  have hready := ready_startState source text options
  have hfair : ¬(ofText source text options).fair := id
  let reading := ofText source text options
  have htaken : Portioned (statementOrError (level (options.maxDepth + 1))) reading.context
    (startState source text options) portions last := hportions
  have htaken' : Portioned (statementOrError (level (options.maxDepth + 1))) reading.context
    (startState source text options) portions' last' := hportions'
  have hversion : state.version =
      (statedVersion? (startState source text options).rest).or options.defaultVersion := by
    rw [hstate]
    exact htaken'.version hfair (.nil hready rfl)
  refine ⟨output, root, state, _, hparse, hprogram, rfl, hversion, fun loaded entry hloaded => ?_⟩
  have hleading : (loaded.leadingVersion? entry).map Prod.fst =
      statedVersion? (behindBraces (startState source text options).rest) :=
    (leadingVersion?_eq hloaded hitems).trans (htaken.leading hfair (.nil hready rfl))
  refine ⟨hleading, fun hnone => ?_⟩
  rw [hversion, hleading, hnone, Option.or_none]
  exact stated_eq_iff _

/-- A closing brace without a block hides a version statement from the parser, and not from those
who look at the tree. -/
theorem not_states_strayBrace :
    ¬∀ source text options output root state, options.defaultVersion = none →
      parse source text options = .ok output →
      program ⟨source, text, options⟩ (startState source text options) = .ok root state →
      ∀ (loaded : Program) (entry : SourceId), loaded.tree? entry = some output.tree →
        state.version = (loaded.leadingVersion? entry).map Prod.fst := by
  intro hall
  let text := "\x7d OPENQASM 2.0;".toList
  have hcheck : (match parse ⟨0⟩ text {}, program ⟨⟨0⟩, text, {}⟩ (startState ⟨0⟩ text {}) with
    | .ok output, .ok _ state =>
      state.version == none &&
        (Program.leadingVersion? { trees := #[output.tree] } ⟨0⟩).map Prod.fst ==
          some ⟨2, some 0⟩
    | _, _ => false) = true := by decide +kernel
  split at hcheck
  · next output root state hok hprogram =>
    simp only [Bool.and_eq_true, beq_iff_eq] at hcheck
    obtain ⟨hnone, hsome⟩ := hcheck
    have heq := hall ⟨0⟩ text {} output root state rfl hok hprogram
      { trees := #[output.tree] } ⟨0⟩ rfl
    rw [hnone, hsome] at heq
    cases heq
  · cases hcheck

end OpenQasm.Grammar
