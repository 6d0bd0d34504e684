import OpenQasm.Proofs.Diagnostic.Filtering
import OpenQasm.Proofs.Grammar.Comparison
import OpenQasm.Proofs.Grammar.Silence
import OpenQasm.Proofs.Token.Tiling

/-!
# The window of suppressed errors

Two parses that differ in the window only go through the same states but for what they report. The
parse with the wider window has left out some syntax errors near a recovery, and all that stand at
the token of such an error from there on: what it reports later is reported somewhere else.
-/

namespace OpenQasm.Grammar

open Comparison Diagnostics

/-! ## What is left out -/

/-- Different numbers of tokens lead to different places. -/
def Located (context : Context) (tokens : List Token) : Prop :=
  ∀ position position', position ≤ tokens.length → position' ≤ tokens.length →
    nextSpan context (tokens.drop position) = nextSpan context (tokens.drop position') →
    position = position'

/-- A syntax error within the window of the last recovery. -/
structure Suppressed (context : Context) (tokens : List Token) (window : Nat)
    (resync : Option Nat) (diagnostic : Diagnostic) : Prop where
  code : diagnostic.code = .syntaxError
  message : diagnostic.message ∉ placementMessages
  near : ∃ start ∈ resync, ∃ position ≤ tokens.length, position < start + window ∧
    diagnostic.span = nextSpan context (tokens.drop position)

/-- Of what has been reported in a state, `reports` leaves out some suppressed errors only. -/
structure Screened (context : Context) (tokens : List Token) (window : Nat) (state : State)
    (reports : Diagnostics) : Prop where
  position : state.position ≤ tokens.length
  rest : state.rest = tokens.drop state.position
  resync : ∀ start ∈ state.resync, start ≤ state.position
  marked : ∃ marked : Marked, state.diagnostics.items = marked.map Prod.fst ∧
    reports.items = kept marked ∧
    (∀ mark ∈ marked, mark.2 = false → Suppressed context tokens window state.resync mark.1) ∧
    (Located context tokens → Orderly marked)

section
variable {context : Context} {tokens : List Token} {window : Nat} {state other : State}
  {reports : Diagnostics} {diagnostic : Diagnostic}

/-- Nesting, names and nodes do not matter. -/
theorem Screened.same (h : Screened context tokens window state reports)
    (hp : other.position = state.position) (hr : other.rest = state.rest)
    (hs : other.resync = state.resync) (hd : other.diagnostics = state.diagnostics) :
    Screened context tokens window other reports where
  position := hp ▸ h.position
  rest := by rw [hr, hp, h.rest]
  resync := by rw [hs, hp]; exact h.resync
  marked := by rw [hs, hd]; exact h.marked

theorem Screened.pass (h : Screened context tokens window state reports) (n : Nat) :
    Screened context tokens window (State.pass n state) reports := by
  have habreast := Abreast.pass ⟨h.position, h.rest, h.resync⟩ n
  have hresync : (State.pass n state).resync = state.resync := by rw [pass_eq]
  have hreports : (State.pass n state).diagnostics = state.diagnostics := by rw [pass_eq]
  exact
    { position := habreast.position
      rest := habreast.rest
      resync := habreast.resync
      marked := by rw [hresync, hreports]; exact h.marked }

/-- What has been left out stays near the last recovery when there is another one. -/
theorem Screened.recover (h : Screened context tokens window state reports) :
    Screened context tokens window { state with resync := some state.position } reports where
  position := h.position
  rest := h.rest
  resync := fun start hs => Nat.le_of_eq (Option.some.inj hs).symm
  marked := by
    obtain ⟨marked, hleft, hright, hdropped, horder⟩ := h.marked
    refine ⟨marked, hleft, hright, fun mark hm hstays => ?_, horder⟩
    obtain ⟨hcode, hmessage, start, hstart, position, hle, hlt, hspan⟩ := hdropped mark hm hstays
    have := h.resync start hstart
    exact ⟨hcode, hmessage, state.position, rfl, position, hle, by omega, hspan⟩

/-- A report that both make says nothing that has been left out. -/
theorem Screened.keep (h : Screened context tokens window state reports)
    (hd : Located context tokens → ∀ dropped,
      Suppressed context tokens window state.resync dropped →
      dropped.identity ≠ diagnostic.identity) :
    Screened context tokens window (state.reporting (state.diagnostics.push diagnostic))
      (reports.push diagnostic) where
  position := h.position
  rest := h.rest
  resync := h.resync
  marked := by
    obtain ⟨marked, hleft, hright, hdropped, horder⟩ := h.marked
    refine ⟨marked ++ [(diagnostic, true)], ?_, ?_, fun mark hm hstays => ?_, fun hlocated => ?_⟩
    · rw [List.map_append, ← hleft]
      rfl
    · rw [kept_append, ← hright]
      rfl
    · rcases List.mem_append.1 hm with hm | hm
      · exact hdropped mark hm hstays
      · rw [List.mem_singleton.1 hm] at hstays
        cases hstays
    · refine List.pairwise_append.2 ⟨horder hlocated, List.pairwise_singleton _ _, ?_⟩
      intro mark hm last hlast hstays _
      rw [List.mem_singleton.1 hlast]
      exact hd hlocated mark.1 (hdropped mark hm hstays)

/-- A report that only the left parse makes. -/
theorem Screened.leave (h : Screened context tokens window state reports)
    (hd : Suppressed context tokens window state.resync diagnostic) :
    Screened context tokens window
      (state.reporting (state.diagnostics.push diagnostic)) reports where
  position := h.position
  rest := h.rest
  resync := h.resync
  marked := by
    obtain ⟨marked, hleft, hright, hdropped, horder⟩ := h.marked
    refine ⟨marked ++ [(diagnostic, false)], ?_, ?_, fun mark hm hstays => ?_, fun hlocated => ?_⟩
    · rw [List.map_append, ← hleft]
      rfl
    · rw [kept_append, ← hright]
      exact (List.append_nil _).symm
    · rcases List.mem_append.1 hm with hm | hm
      · exact hdropped mark hm hstays
      · rw [List.mem_singleton.1 hm]
        exact hd
    · refine List.pairwise_append.2 ⟨horder hlocated, List.pairwise_singleton _ _, ?_⟩
      intro mark _ last hlast _ hstays
      rw [List.mem_singleton.1 hlast] at hstays
      cases hstays

/-- A syntax error beyond the window stands where nothing has been left out. -/
theorem Screened.identity_ne {message : String} (h : Screened context tokens window state reports)
    (hw : state.withinWindow window = false) (hl : Located context tokens) {dropped : Diagnostic}
    (hd : Suppressed context tokens window state.resync dropped) :
    dropped.identity ≠ (syntaxReport context state.rest message).identity := by
  obtain ⟨-, -, start, hstart, position, hle, hlt, hspan⟩ := hd
  intro heq
  obtain ⟨-, hspans, -⟩ := Diagnostic.identity_eq_iff.1 heq
  have hsame : position = state.position := by
    refine hl position state.position hle h.position ?_
    rw [← hspan, ← h.rest]
    exact hspans
  have hwithin := State.withinWindow_iff.2 ⟨start, hstart, hsame ▸ hlt⟩
  rw [hw] at hwithin
  cases hwithin

/-- A syntax error within the window is suppressed. -/
theorem Screened.suppressed {message : String} (h : Screened context tokens window state reports)
    (hw : state.withinWindow window = true) (hm : message ∉ placementMessages) :
    Suppressed context tokens window state.resync (syntaxReport context state.rest message) := by
  obtain ⟨start, hstart, hlt⟩ := State.withinWindow_iff.1 hw
  refine ⟨rfl, hm, start, hstart, state.position, h.position, hlt, ?_⟩
  rw [← h.rest]
  rfl

end

/-! ## Two windows -/

section
variable {source : SourceId} {text : List Char} {options : ParseOptions} {narrow wide : Nat}
  {depth blocks : Nat}

/-- A parse beside one with a wider window. -/
def widened (source : SourceId) (text : List Char) (options : ParseOptions) (narrow wide : Nat) :
    Comparison where
  left := ⟨source, text, { options with suppressionWindow := narrow }⟩
  right := ⟨source, text, { options with suppressionWindow := wide }⟩
  Meets := Screened ⟨source, text, options⟩ (startState source text options).rest wide
  Parts _ _ := False
  stops := False
  Halts failure := failure = .countOverflow

/-- What is reported within the narrow window is reported within the wide one, if at all. -/
theorem widened_reportSyntax (h : narrow ≤ wide) {message : String}
    (hm : message ∉ placementMessages) :
    (widened source text options narrow wide).Keeps depth blocks (reportSyntax message)
      (reportSyntax message) := by
  intro state reports hat
  have hmeets : Screened ⟨source, text, options⟩ (startState source text options).rest wide state
    reports := hat.meets
  by_cases hover : ∃ start ∈ state.resync, Text.wordBound ≤ start + wide
  · obtain ⟨start, hstart, ho⟩ := hover
    have hright : reportSyntax message (widened source text options narrow wide).right
        (state.reporting reports) = .error (.crash .countOverflow) (state.reporting reports) :=
      reportSyntax_overflow hstart (hmeets.resync start hstart) ho
    rw [hright]
    exact .halt rfl
  · have hbound : ∀ start, state.resync = some start →
        start ≤ state.position ∧ start + wide < Text.wordBound := fun start hs =>
      ⟨hmeets.resync start hs, Nat.lt_of_not_le fun ho => hover ⟨start, hs, ho⟩⟩
    have hbound' : ∀ start, state.resync = some start →
        start ≤ state.position ∧ start + narrow < Text.wordBound := fun start hs =>
      ⟨(hbound start hs).1, by have := (hbound start hs).2; omega⟩
    have hleft : reportSyntax message (widened source text options narrow wide).left state = .ok ()
        (if state.withinWindow narrow || startsWith .error state.rest then state
        else state.reporting (state.diagnostics.push
          (syntaxReport ⟨source, text, options⟩ state.rest message))) := reportSyntax_eq hbound'
    have hright : reportSyntax message (widened source text options narrow wide).right
        (state.reporting reports) = .ok ()
        (if state.withinWindow wide || startsWith .error state.rest then state.reporting reports
        else state.reporting (reports.push
          (syntaxReport ⟨source, text, options⟩ state.rest message))) := reportSyntax_eq hbound
    rw [hleft, hright]
    by_cases herror : startsWith .error state.rest = true
    · simp only [herror, Bool.or_true, if_true]
      exact .ok hat
    cases hwide : state.withinWindow wide with
    | false =>
      have hnarrow : state.withinWindow narrow = false := by
        refine Bool.eq_false_iff.2 fun hn => ?_
        obtain ⟨start, hstart, hlt⟩ := State.withinWindow_iff.1 hn
        have hwithin : state.withinWindow wide = true :=
          State.withinWindow_iff.2 ⟨start, hstart, by omega⟩
        rw [hwide] at hwithin
        cases hwithin
      simp only [hnarrow, herror]
      exact .ok ⟨hmeets.keep fun hl _ => hmeets.identity_ne hwide hl, hat.depth, hat.openBlocks⟩
    | true =>
      cases hnarrow : state.withinWindow narrow with
      | true => exact .ok hat
      | false =>
        simp only [herror]
        exact .ok ⟨hmeets.leave (hmeets.suppressed hwide hm), hat.depth, hat.openBlocks⟩

/-- The window does not matter to nesting. -/
theorem widened_overflow {α : Type} {other : Parser α}
    (hle : options.maxDepth ≤ depth) :
    (widened source text options narrow wide).Keeps depth blocks overflow (nested other) := by
  intro state reports hat
  have hright : options.maxDepth ≤ (state.reporting reports).depth := by
    rw [show (state.reporting reports).depth = depth from hat.depth]
    exact hle
  rw [nested_of_le hright, overflow_eq, overflow_eq]
  cases hu : state.unwinding with
  | some blocks =>
    rw [show (state.reporting reports).unwinding = some blocks from hu]
    exact .error hat
  | none =>
    rw [show (state.reporting reports).unwinding = none from hu]
    let report := overflowReport ⟨source, text, options⟩ state.rest
    have hkept : Screened ⟨source, text, options⟩ (startState source text options).rest wide
        (state.reporting (state.diagnostics.push report)) (reports.push report) := by
      refine Screened.keep hat.meets fun _ dropped hd heq => ?_
      have hcode := (Diagnostic.identity_eq_iff.1 heq).1
      rw [hd.code] at hcode
      cases hcode
    exact .error ⟨hkept.same rfl rfl rfl rfl, hat.depth, hat.openBlocks⟩

theorem widened_lawful (h : narrow ≤ wide) : (widened source text options narrow wide).Lawful where
  source := rfl
  text := rfl
  alike ha hmeets := hmeets.same ha.position ha.rest ha.resync ha.diagnostics
  pass n hmeets := hmeets.pass n
  push diagnostic hmeets hd := hmeets.keep fun _ dropped hdropped heq => by
    obtain ⟨hcode, -, hmessage⟩ := Diagnostic.identity_eq_iff.1 heq
    rcases hd with hd | hd
    · exact hd (hcode.symm.trans hdropped.code)
    · exact hdropped.message (hmessage.symm ▸ hd)
  settle hmeets := hmeets.same rfl rfl rfl rfl
  resync hmeets := hmeets.recover
  parts_alike _ hparts := hparts
  parts_left _ _ hparts := hparts
  parts_right _ hparts := hparts
  parts_unwinding hs := hs.elim
  reportSyntax hm := widened_reportSyntax h hm
  limits := Nat.le_refl _
  overflow _ hle := widened_overflow hle

/-- Two parses start side by side. -/
theorem widened_start : (widened source text options narrow wide).At 0 0
    (startState source text options) {} :=
  ⟨⟨Nat.zero_le _, rfl, nofun, [], rfl, rfl, nofun, fun _ => .nil⟩, rfl, rfl⟩

/-- The parse with the wider window comes to the same nodes. -/
theorem program_widened (h : narrow ≤ wide) {root : Placed} {after : State}
    (hwide : program ⟨source, text, { options with suppressionWindow := wide }⟩
      (startState source text options) = .ok root after) :
    ∃ state, program ⟨source, text, { options with suppressionWindow := narrow }⟩
        (startState source text options) = .ok root state ∧ after.builder = state.builder ∧
      Screened ⟨source, text, options⟩ (startState source text options).rest wide state
        after.diagnostics := by
  let c := widened source text options narrow wide
  have hjoins := program_keeps (widened_lawful h) id _ _ (widened_start : c.At 0 0 _ _)
  have hright : program c.right ((startState source text options).reporting {}) = .ok root after :=
    hwide
  rw [hright] at hjoins
  generalize hleft : program c.left (startState source text options) = left at hjoins
  cases hjoins with
  | @ok _ state _ hat => exact ⟨state, hleft, rfl, hat.meets⟩
  | part hparts => exact hparts.elim

/-- What crashes with the wider window crashes with the narrower one, unless it is the count. -/
theorem program_widened_crash (h : narrow ≤ wide) {failure : Crash} {after : State}
    (hwide : program ⟨source, text, { options with suppressionWindow := wide }⟩
      (startState source text options) = .error (.crash failure) after)
    (hne : failure ≠ .countOverflow) :
    ∃ state, program ⟨source, text, { options with suppressionWindow := narrow }⟩
      (startState source text options) = .error (.crash failure) state := by
  let c := widened source text options narrow wide
  have hjoins := program_keeps (widened_lawful h) id _ _ (widened_start : c.At 0 0 _ _)
  have hright : program c.right ((startState source text options).reporting {}) =
    .error (.crash failure) after := hwide
  rw [hright] at hjoins
  generalize hleft : program c.left (startState source text options) = left at hjoins
  cases hjoins with
  | @error _ state _ hat => exact ⟨state, hleft⟩
  | part hparts => exact hparts.elim
  | halt hcount => exact absurd hcount hne

end

/-! ## Parses -/

/-- Tokens that are apart from each other have different spans, and the end of the text is no token.
-/
theorem located_of_separate {context : Context} {tokens : List Token}
    (h : Separate context.source tokens) : Located context tokens := by
  have hlt : ∀ position position', position < position' → position' ≤ tokens.length →
      nextSpan context (tokens.drop position) ≠ nextSpan context (tokens.drop position') := by
    intro position position' hlt hle heq
    have hposition : position < tokens.length := Nat.lt_of_lt_of_le hlt hle
    have hnonempty := (h.span _ (List.getElem_mem hposition)).2
    rw [List.drop_eq_getElem_cons hposition] at heq
    rcases Nat.lt_or_eq_of_le hle with hposition' | rfl
    · have hordered := List.pairwise_iff_getElem.1 h.ordered position position' hposition
        hposition' hlt
      rw [List.drop_eq_getElem_cons hposition'] at heq
      simp only [nextSpan] at heq
      rw [heq] at hordered hnonempty
      omega
    · rw [List.drop_length] at heq
      simp only [nextSpan] at heq
      rw [heq, Span.point] at hnonempty
      exact Nat.lt_irrefl _ hnonempty
  intro position position' hle hle' heq
  rcases Nat.lt_trichotomy position position' with hbefore | hsame | hbehind
  · exact absurd heq (hlt _ _ hbefore hle')
  · exact hsame
  · exact absurd heq.symm (hlt _ _ hbehind hle)

/-- The window only filters reports. Two parses that differ in the window yield the same tree, and
the one with the wider window shows what the other one does but for some syntax errors, in the same
order unless offsets are cut down. With the wider window the count of tokens may leave the machine
numbers; a number whose exponent has no size crashes both. -/
theorem parse_filters (source : SourceId) (text : List Char) (options : ParseOptions)
    {narrow wide : Nat} (h : narrow ≤ wide) :
    (∃ all few, parse source text { options with suppressionWindow := narrow } = .ok all ∧
      parse source text { options with suppressionWindow := wide } = .ok few ∧
      few.tree = all.tree ∧
      (∀ diagnostic ∈ all.diagnostics, diagnostic ∉ few.diagnostics →
        diagnostic.code = .syntaxError) ∧
      (Text.width text ≤ maxOffset → few.diagnostics.Sublist all.diagnostics)) ∨
    Crashes source text { options with suppressionWindow := wide } ∧
      (parse source text { options with suppressionWindow := wide } = .error .exponentOverflow →
        parse source text { options with suppressionWindow := narrow } =
          .error .exponentOverflow) := by
  rcases (parse_completes source text { options with suppressionWindow := wide }).symm with
    ⟨failure, herror, hover⟩ | ⟨-, -, few, -, hfew, -⟩
  · refine .inr ⟨⟨failure, herror, hover⟩, fun hexponent => ?_⟩
    obtain rfl := Except.error.inj (herror.symm.trans hexponent)
    obtain ⟨after, hwide⟩ := exists_of_parse_error herror hover
    obtain ⟨state, hnarrow⟩ := program_widened_crash h hwide nofun
    exact parse_of_crash hnarrow
  left
  obtain ⟨root, after, hwide, -⟩ := exists_of_parse_ok hfew
  obtain ⟨state, hnarrow, hbuilder, hscreened⟩ := program_widened h hwide
  obtain ⟨hshown, hall⟩ := parse_of_program hwide hnarrow hbuilder.symm hfew
  obtain ⟨marked, hleft, hright, hdropped, horder⟩ := hscreened.marked
  -- What is reported about the tokens is reported by both.
  let lexical : Marked := (tokenize source text).2.map fun diagnostic => (diagnostic, true)
  have hlexical : ∀ mark ∈ lexical, mark.2 = true := by
    intro mark hm
    obtain ⟨diagnostic, -, rfl⟩ := List.mem_map.1 hm
    rfl
  have hreported : (lexical ++ marked).map Prod.fst =
      (tokenize source text).2 ++ state.diagnostics.items := by
    rw [List.map_append, hleft]
    simp [lexical, Function.comp_def]
  have hkept : kept (lexical ++ marked) = (tokenize source text).2 ++ after.diagnostics.items := by
    rw [kept_append, hright]
    simp [kept, lexical, List.filter_map, Function.comp_def]
  refine ⟨_, few, hall, hfew, rfl, fun diagnostic hd hn => ?_, fun hwidth => ?_⟩
  · refine Classical.byContradiction fun hcode => hn ?_
    rw [← hreported] at hd
    rw [hshown, ← hkept]
    refine mem_sorted_kept (p := fun said => decide (said.1 ≠ .syntaxError)) ?_ hd
      (decide_eq_true hcode)
    intro mark hm hstays
    rcases List.mem_append.1 hm with hm | hm
    · rw [hlexical mark hm] at hstays
      cases hstays
    · simp [Diagnostic.identity, (hdropped mark hm hstays).code]
  · rw [hshown, ← hreported, ← hkept]
    have hseparate : Separate source (startState source text options).rest :=
      (tokenize_separate source text hwidth).sublist List.filter_sublist
    refine sorted_kept_sublist (List.pairwise_append.2 ⟨?_, horder ?_, ?_⟩)
    · refine List.pairwise_iff_forall_sublist.2 fun {mark other} hsub hstays => ?_
      rw [hlexical mark (hsub.subset List.mem_cons_self)] at hstays
      cases hstays
    · exact located_of_separate hseparate
    · intro mark hm other _ hstays
      rw [hlexical mark hm] at hstays
      cases hstays

/-- An error right behind a recovery is reported without a window, and left out with one of four
tokens. -/
theorem parse_filters_cascade : ∃ text : List Char,
    text = "qubit q; h q ) reset ) ;".toList ∧ 0 ≤ 4 ∧
      ∃ all few, parse ⟨0⟩ text { suppressionWindow := 0 } = .ok all ∧
        parse ⟨0⟩ text { suppressionWindow := 4 } = .ok few ∧ few.tree = all.tree ∧
        (∀ diagnostic ∈ all.diagnostics, diagnostic ∉ few.diagnostics →
          diagnostic.code = .syntaxError) ∧
        (Text.width text ≤ maxOffset → few.diagnostics.Sublist all.diagnostics) := by
  let text := "qubit q; h q ) reset ) ;".toList
  have hle : 0 ≤ 4 := by decide
  have hends : (parse ⟨0⟩ text { suppressionWindow := 4 }).toBool = true := by decide +kernel
  exact ⟨text, rfl, hle,
    (parse_filters ⟨0⟩ text {} hle).resolve_right fun h => not_crashes hends h.1⟩

end OpenQasm.Grammar
