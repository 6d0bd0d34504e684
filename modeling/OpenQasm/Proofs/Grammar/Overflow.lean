import OpenQasm.Proofs.Grammar.Balance
import OpenQasm.Proofs.Grammar.Depth
import OpenQasm.Proofs.Grammar.Portions

/-!
# Statements too deep for the limit

A text that is one statement without errors, parsed under a limit that the statement exceeds. It
stops where the depth runs out, which is reported once, and an error takes its place. The error ends
where the recovery does, which need not be the end of the statement: what is left of it is read as
further statements.
-/

namespace OpenQasm.Grammar

open Comparison Reading

/-! ## Where the recovery stops -/

/-- Tokens that the recovery may leave behind those that it has passed over. -/
def Resumes (passed left : List Token) : Prop :=
  left = [] ∨ (∃ last ∈ passed.getLast?, last.kind = Symbol.semicolon ∨
    last.kind = Symbol.rightBrace) ∨
  ∃ next ∈ left.head?, next.kind = Symbol.rightBrace ∨ next.kind.startsStatement

section
variable {passed left : List Token} {token : Token}

/-- Tokens before do not change where reading resumes. -/
theorem Resumes.append (h : Resumes passed left) (read : List Token) :
    Resumes (read ++ passed) left := by
  refine h.imp_right (Or.imp_left ?_)
  rintro ⟨last, hlast, hkind⟩
  rw [Option.mem_def] at hlast
  exact ⟨last, by simp [List.getLast?_append, hlast], hkind⟩

/-- Nor does one token. -/
theorem Resumes.cons (h : Resumes passed left) (token : Token) : Resumes (token :: passed) left :=
  h.append [token]

/-- The recovery resumes at a statement or at an end. -/
theorem skipLength_resumes (opened : Nat) (tokens : List Token) :
    Resumes (tokens.take (skipLength opened tokens)) (tokens.drop (skipLength opened tokens)) := by
  fun_induction skipLength opened tokens with
  | case1 => exact .inl rfl
  | case2 opened token rest hk ih => exact ih.cons token
  | case3 token rest hk hr => exact .inr (.inr ⟨token, rfl, .inl hr⟩)
  | case4 token rest hk hr => exact .inr (.inl ⟨token, rfl, .inr hr⟩)
  | case5 token rest hk hr opened ih => exact ih.cons token
  | case6 token rest hk hr hs => exact .inr (.inl ⟨token, rfl, .inl hs⟩)
  | case7 token rest hk hr hs hstart => exact .inr (.inr ⟨token, rfl, .inr hstart⟩)
  | case8 token rest hl hr hs hstart ih => exact ih.cons token
  | case9 opened token rest hl hr ho ih => exact ih.cons token

/-- So it does if it has to skip a token. -/
theorem skipStatementLength_resumes (opened : Nat) (tokens : List Token) :
    Resumes (tokens.take (skipStatementLength opened tokens))
      (tokens.drop (skipStatementLength opened tokens)) := by
  cases tokens with
  | nil => exact .inl rfl
  | cons token rest =>
    rw [skipStatementLength]
    split
    · next hs => exact .inr (.inl ⟨token, rfl, .inl hs.1⟩)
    · exact (skipLength_resumes _ rest).cons token

/-- The recovery after a statement goes on to a place where statements may go on. -/
theorem skipped_resumes (base failed : State) :
    Resumes (failed.rest.take (skipped base failed)) (failed.rest.drop (skipped base failed)) := by
  unfold skipped
  split
  · exact skipStatementLength_resumes _ _
  · exact skipLength_resumes _ _

end

/-! ## Statements that are cut short -/

/-- The reports of a parse that stops while an overflow unwinds: those of the parse that goes on, up
to the overflow. -/
def Cut (context : Context) (failed other : State) : Prop :=
  ∃ front, failed.unwinding.isSome ∧
    failed.diagnostics.items = front ++ [overflowReport context failed.rest] ∧
    front <+: other.diagnostics.items

section
variable {source : SourceId} {text : List Char} {options : ParseOptions} {limit : Nat}

/-- The comparison of a limit with a lower one, at which the parse is cut, is lawful. -/
theorem cut_lawful (hle : options.maxDepth ≤ limit) :
    (deepened source text options limit (Cut ⟨source, text, options⟩) True).Lawful := by
  refine deepened_lawful hle ?_ ?_ ?_ ?_ ?_
  · intro state after _ hr
    exact ⟨state.diagnostics.items, rfl, rfl, hr.isPrefix⟩
  · rintro state other after ha ⟨front, hu, hd, hfront⟩
    exact ⟨front, ha.unwinding ▸ hu, by rw [ha.diagnostics, ha.rest, hd], hfront⟩
  · exact fun h => absurd trivial h
  · rintro state after other hr ⟨front, hu, hd, hfront⟩
    exact ⟨front, hu, hd, hfront.trans hr.isPrefix⟩
  · exact fun _ ⟨_, hu, _⟩ => hu

/-- The first statement is read with both limits alike, or the lower one stops it. -/
theorem statement_deepened (hle : options.maxDepth ≤ limit) {node : Placed} {after : State}
    (h : statement (level (limit + 1)) ⟨source, text, { options with maxDepth := limit }⟩
      (startState source text options) = .ok node after) :
    statement (level (options.maxDepth + 1)) ⟨source, text, options⟩
      (startState source text options) = .ok node after ∨
    ∃ failed, statement (level (options.maxDepth + 1)) ⟨source, text, options⟩
      (startState source text options) = .error .recovered failed ∧
      Cut ⟨source, text, options⟩ failed after := by
  let c := deepened source text options limit (Cut ⟨source, text, options⟩) True
  have hl : c.Lawful := cut_lawful hle
  have hstart : c.At 0 0 (startState source text options) {} := ⟨⟨rfl, rfl⟩, rfl, rfl⟩
  have hjoins := statement_keeps hl _ _ hstart
  have hright : statement (level (c.right.options.maxDepth + 1)) c.right
      ((startState source text options).reporting {}) = .ok node after := h
  rw [hright] at hjoins
  generalize hleft : statement (level (c.left.options.maxDepth + 1)) c.left
    (startState source text options) = left at hjoins
  cases hjoins with
  | ok hat =>
    refine .inl (hleft.trans ?_)
    rw [hat.meets.1]
    rfl
  | part hparts hstops =>
    obtain ⟨failed, rfl, -⟩ := hstops trivial
    exact .inr ⟨failed, hleft, hparts⟩

end

/-! ## Texts that are one statement -/

/-- With these options, a text is one statement, read without a report. -/
structure OneStatement (source : SourceId) (text : List Char) (options : ParseOptions)
    (node : Placed) (after : State) : Prop where
  begun : ∃ token rest, (startState source text options).rest = token :: rest ∧
    token.kind ≠ Symbol.rightBrace
  read : statement (level (options.maxDepth + 1)) ⟨source, text, options⟩
    (startState source text options) = .ok node after
  rest : after.rest = []
  reports : after.diagnostics.items = []
  lexical : (tokenize source text).2 = []

section
variable {source : SourceId} {text : List Char} {options : ParseOptions} {levels : Nat}
  {state after last : State} {portion : Portion} {portions : List Portion} {context : Context}

/-- As long as no error is reported, a statement or an error in its place is the statement. -/
theorem item_follows_statement (context : Context) (levels : Nat) :
    Follows Code.isError context (statementOrError (level levels)) (statement (level levels)) := by
  refine statementOrError_follows (level_reports levels) (fun production => ?_) fun _ _ _ h => h
  have hplain : Faithful context plainReader := fun _ _ _ _ h => statementOrError_ok h
  have hsame : Follows Code.isError context (level levels production)
      (levelWith plainReader levels production) := level_follows hplain levels production
  rwa [levelWith_plain] at hsame

/-- A portion that is taken without an error reported is a statement. -/
theorem Takes.quiet (h : Takes (statementOrError (level levels)) context state portion after)
    (hq : Quiet Code.isError state) (hn : ¬Alarmed Code.isError after) :
    Quiet Code.isError after ∧ ∃ node token rest, portion = .item node (readBy state after) ∧
      state.rest = token :: rest ∧ token.kind ≠ Symbol.rightBrace ∧
      statement (level levels) context state = .ok node after := by
  cases h with
  | @stray token rest reported _ _ hok =>
    have halarm := hq.reportSyntax context "unexpected `\x7d`"
    rw [hok] at halarm
    exact absurd (halarm.reported (Reports.passOver (n := 1) context reported)) hn
  | @item token rest node _ hr hk hok =>
    have hread := item_follows_statement context levels state hq
    rw [hok] at hread
    obtain ⟨hafter, hstatement⟩ := hread.resolve_left hn
    exact ⟨hafter, node, token, rest, rfl, hr, hk, hstatement⟩

/-- A text whose tree has one item and about which nothing is reported is one statement. -/
theorem exists_oneStatement {whole : ParseOutput} (hwhole : parse source text options = .ok whole)
    (hclean : whole.diagnostics = []) (hone : whole.tree.items.length = 1) :
    ∃ node after, OneStatement source text options node after := by
  obtain ⟨output, portions, last, hparse, hportions, hitems, -, hreports, -⟩ :=
    (parse_portioned source text options).resolve_right (not_crashes (by rw [hwhole]; rfl))
  obtain rfl := Except.ok.inj (hwhole.symm.trans hparse)
  obtain ⟨hlexical, hlast⟩ :=
    List.append_eq_nil_iff.1 (Diagnostics.sorted_eq_nil_iff.1 (hreports.symm.trans hclean))
  have hquiet : Quiet Code.isError (startState source text options) :=
    quiet_startState options fun _ hd => by rw [hlexical] at hd; cases hd
  have hsilent : ∀ {state}, Reported state last → ¬Alarmed Code.isError state := by
    rintro state hr halarm
    obtain ⟨diagnostic, hd, -⟩ := halarm.reported hr
    rw [hlast] at hd
    cases hd
  have hcount : (portions.filterMap Portion.item?).length = 1 := by
    rw [hitems, List.length_map] at hone
    exact hone
  cases hportions with
  | done => cases hcount
  | next htakes hmore =>
    obtain ⟨hafter, node, token, rest, rfl, hr, hk, hread⟩ :=
      htakes.quiet hquiet (hsilent hmore.reported)
    cases hmore with
    | done hnil => exact ⟨node, _, ⟨token, rest, hr, hk⟩, hread, hnil, hlast, hlexical⟩
    | next htakes' hmore' =>
      obtain ⟨-, node', _, _, rfl, -⟩ := htakes'.quiet hafter (hsilent hmore'.reported)
      simp [Portion.item?] at hcount

/-- Nothing is reported about a text that is one statement. -/
theorem OneStatement.diagnostics_eq_nil {node : Placed}
    (h : OneStatement source text options node after)
    {output : ParseOutput} (hparse : parse source text options = .ok output) :
    output.diagnostics = [] := by
  obtain ⟨other, portions, last, hother, hportions, -, -, hreports, -⟩ :=
    (parse_portioned source text options).resolve_right (not_crashes (by rw [hparse]; rfl))
  obtain rfl := Except.ok.inj (hparse.symm.trans hother)
  obtain ⟨token, rest, hr, hk⟩ := h.begun
  obtain ⟨more, -, hmore⟩ := hportions.cons_of_ok hr hk (statementOrError_ok h.read)
  cases hmore with
  | done => rw [hreports, Diagnostics.sorted_eq_nil_iff, h.lexical, h.reports]; rfl
  | next htakes =>
    cases htakes with
    | stray hr' | item hr' => cases h.rest.symm.trans hr'

end

/-! ## Closing braces behind an error -/

section
variable {levels start : Nat} {state reported last : State} {token : Token} {rest : List Token}
  {portions : List Portion} {context : Context} {message : String}

/-- A stray brace is passed over, and is reported unless the last recovery is close. -/
theorem pass_stray (hr : state.rest = token :: rest) (hk : token.kind = Symbol.rightBrace)
    (hresync : state.resync = some start) (hle : start ≤ state.position)
    (hok : reportSyntax message context state = .ok () reported) :
    State.pass 1 reported =
      { state with
        rest
        position := state.position + 1
        previousEnd := token.span.stop
        diagnostics :=
          if state.position < start + context.options.suppressionWindow then state.diagnostics
          else state.diagnostics.push (syntaxReport context state.rest message) } := by
  have hplain : startsWith .error state.rest = false := by
    rw [hr, startsWith, List.head?_cons, Option.any_some, hk]
    rfl
  have hclose : state.withinWindow context.options.suppressionWindow =
      decide (state.position < start + context.options.suppressionWindow) := by
    rw [State.withinWindow, hresync, Option.any_some]
  rcases Nat.lt_or_ge (start + context.options.suppressionWindow) Text.wordBound with hlt | ho
  · rw [reportSyntax_eq fun other ho => by
      obtain rfl := Option.some.inj (hresync.symm.trans ho)
      exact ⟨hle, hlt⟩, hclose, hplain, Bool.or_false] at hok
    obtain rfl := (EStateM.Result.ok.inj hok).2
    by_cases h : state.position < start + context.options.suppressionWindow
    · simp [h, State.pass, hr]
    · simp [h, State.pass, State.reporting, hr]
  · rw [reportSyntax_overflow hresync hle ho] at hok
    cases hok

/-- Of the closing braces behind an error, none is an item. They are reported as soon as they are
out of the window of the recovery. -/
theorem Portioned.strays
    (h : Portioned (statementOrError (level levels)) context state portions last)
    (hbraces : ∀ token ∈ state.rest, token.kind = Symbol.rightBrace)
    (hresync : state.resync = some start) (hle : start ≤ state.position) :
    portions.filterMap Portion.item? = [] ∧
    (state.rest.length ≤ start + context.options.suppressionWindow - state.position →
      last.diagnostics = state.diagnostics) ∧
    (start + context.options.suppressionWindow - state.position < state.rest.length →
      ∃ diagnostic ∈ last.diagnostics.items, diagnostic.code = .syntaxError) := by
  induction h with
  | done hnil => exact ⟨rfl, fun _ => rfl, fun hlt => by rw [hnil] at hlt; cases hlt⟩
  | @next state _ _ _ _ htakes hmore ih =>
    cases htakes with
    | item hr hk => exact absurd (hbraces _ (hr ▸ List.mem_cons_self)) hk
    | stray hr hk hok =>
      have hpass := pass_stray hr hk hresync hle hok
      have hkept := hmore.reported
      rw [hpass] at ih hkept
      obtain ⟨hnone, hsame, hsome⟩ := ih
        (fun other hm => hbraces other (hr ▸ List.mem_cons_of_mem _ hm)) hresync
        (Nat.le_succ_of_le hle)
      dsimp only at hsame hsome
      rw [hr, List.length_cons]
      refine ⟨hnone, fun hfew => ?_, fun hmany => ?_⟩
      · rw [hsame (by omega), if_pos (by omega)]
      · by_cases hclose : state.position < start + context.options.suppressionWindow
        · exact hsome (by omega)
        · rw [if_neg hclose] at hkept
          exact ⟨_, hkept.mem (List.mem_append_right _ List.mem_cons_self), rfl⟩

end

/-! ## Statements that do not fit -/

/-- The tokens in the place of which an error stands: those that the statement has read before it
stopped, and those that the recovery has passed over. -/
def covered (start failed : State) : List Token := readBy start failed ++ passedOver start failed

/-- The tokens behind an error. -/
def remaining (start failed : State) : List Token := failed.rest.drop (skipped start failed)

/-- What a parse yields if its first statement stops at an overflow, with the braces open that the
recovery is told of. The error in its place ends on the level of the statement where one may go on.
Nothing else is yielded and reported if and only if there are only closing braces behind it, and no
more of them than the window has tokens. -/
structure CutShort (source : SourceId) (window : Nat) (start failed : State)
    (output : ParseOutput) : Prop where
  split : start.rest = covered start failed ++ remaining start failed
  level : remaining start failed ≠ [] → Balanced (covered start failed)
  resumes : Resumes (covered start failed) (remaining start failed)
  error : ∃ first ∈ (covered start failed).head?, ∃ id ∈ output.tree.items.head?,
    output.tree.node? id =
      some ⟨.error, source, first.span.start, endAfter 0 (covered start failed)⟩
  single : ((∃ diagnostic, output.diagnostics = [diagnostic] ∧
      diagnostic.code = .maxDepthExceeded) ∧ output.tree.items.length = 1) ↔
    (∀ token ∈ remaining start failed, token.kind = Symbol.rightBrace) ∧
      (remaining start failed).length ≤ window

section
variable {source : SourceId} {text : List Char} {options : ParseOptions}
  {failed last : State} {token : Token} {rest : List Token} {output : ParseOutput}
  {portions : List Portion}

/-- Portions that hold no item are closing braces. -/
theorem braces_of_fits (hf : ∀ portion ∈ portions, portion.Fits source)
    (hnone : portions.filterMap Portion.item? = []) :
    ∀ token ∈ portions.flatMap Portion.tokens, token.kind = Symbol.rightBrace := by
  intro token hm
  obtain ⟨portion, hportion, htoken⟩ := List.mem_flatMap.1 hm
  cases portion with
  | stray other => exact List.mem_singleton.1 htoken ▸ hf _ hportion
  | item node read => cases List.filterMap_eq_nil_iff.1 hnone _ hportion

/-- A statement that stops at the top level is recovered from. -/
theorem recovered_of_stop
    (h : statement (level (options.maxDepth + 1)) ⟨source, text, options⟩
      (startState source text options) = .error .recovered failed) :
    (ofText source text options).Dropped (startState source text options) failed ∧
      statementOrError (level (options.maxDepth + 1)) ⟨source, text, options⟩
        (startState source text options) =
          .ok (errorNode (ofText source text options) (startState source text options) failed)
            (recovered (ofText source text options) (startState source text options) failed) := by
  have hcontext : (ofText source text options).context = ⟨source, text, options⟩ := rfl
  rw [← hcontext] at h ⊢
  rcases statementOrError_cases (level_spec id) (ready_startState source text options) with
    ⟨node, after, hread, -⟩ | ⟨failed', -, -, -, hopen, -⟩ | ⟨failed', hfailed, hd, hend⟩ |
    ⟨failure, after, hcrash, -⟩
  · cases h.symm.trans hread
  · cases hopen
  · obtain ⟨-, rfl⟩ := EStateM.Result.error.inj (h.symm.trans hfailed)
    exact ⟨hd, hend⟩
  · cases h.symm.trans hcrash

/-- If the first statement stops, an error in its place is the first portion of the program. -/
theorem portioned_of_stop (hr : (startState source text options).rest = token :: rest)
    (hk : token.kind ≠ Symbol.rightBrace)
    (hfailed : statement (level (options.maxDepth + 1)) ⟨source, text, options⟩
      (startState source text options) = .error .recovered failed)
    (hparse : parse source text options = .ok output) :
    ∃ node more last,
      Portioned (statementOrError (level (options.maxDepth + 1))) ⟨source, text, options⟩
        (recovered (ofText source text options) (startState source text options) failed) more last ∧
      (Portion.item node (covered (startState source text options) failed)).Fits source ∧
      (∀ portion ∈ more, portion.Fits source) ∧
      (startState source text options).rest =
        covered (startState source text options) failed ++ more.flatMap Portion.tokens ∧
      remaining (startState source text options) failed = more.flatMap Portion.tokens ∧
      output.tree.items = node.id :: (more.filterMap Portion.item?).map Placed.id ∧
      output.tree.node? node.id = some ⟨.error, node.span⟩ ∧
      output.diagnostics =
        Diagnostics.sorted ⟨(tokenize source text).2 ++ last.diagnostics.items⟩ := by
  let start := startState source text options
  let reading := ofText source text options
  have hready : reading.Ready (options.maxDepth + 1) start := ready_startState source text options
  obtain ⟨hd, hend⟩ := recovered_of_stop hfailed
  have hheld := hd.held hready (hr ▸ List.cons_ne_nil _ _) fun hf => hf.elim
  have hread : readBy start (recovered reading start failed) = covered start failed :=
    readBy_eq hheld.split hheld.position
  obtain ⟨output', portions, last, hparse', hportions, hitems, hnodes, hshown, -⟩ :=
    (parse_portioned source text options).resolve_right (not_crashes (by rw [hparse]; rfl))
  obtain rfl := Except.ok.inj (hparse.symm.trans hparse')
  obtain ⟨more, rfl, hmore⟩ := hportions.cons_of_ok hr hk hend
  have hreads : Portioned (statementOrError (level (options.maxDepth + 1))) reading.context start
    (.item (errorNode reading start failed) (readBy start (recovered reading start failed)) :: more)
    last := hportions
  obtain ⟨htokens, hfits⟩ := hreads.fits (item_runs id) (.nil hready rfl)
  rw [hread] at hfits
  rw [List.flatMap_cons, Portion.tokens, hread] at htokens
  have hsplit : start.rest = covered start failed ++ remaining start failed := hheld.split
  refine ⟨errorNode reading start failed, more, last, hmore, hfits _ List.mem_cons_self,
    fun portion hm => hfits portion (List.mem_cons_of_mem _ hm), htokens,
    List.append_cancel_left (hsplit.symm.trans htokens), hitems, ?_, hshown⟩
  rw [hitems] at hnodes
  exact (List.cons.inj hnodes).1

/-- Behind an error whose overflow is all that was reported, nothing else is reported and there is
no item if and only if there are only closing braces within the window. -/
theorem single_iff {state : State} {levels : Nat} {report : Diagnostic} {context : Context}
    (hportions : Portioned (statementOrError (level levels)) context state portions last)
    (hfits : ∀ portion ∈ portions, portion.Fits source)
    (hrest : state.rest = portions.flatMap Portion.tokens)
    (hresync : state.resync = some state.position)
    (hreports : state.diagnostics.items = [report]) (hcode : report.code = .maxDepthExceeded) :
    ((∃ diagnostic, last.diagnostics.sorted = [diagnostic] ∧ diagnostic.code = .maxDepthExceeded) ∧
      portions.filterMap Portion.item? = []) ↔
    (∀ token ∈ state.rest, token.kind = Symbol.rightBrace) ∧
      state.rest.length ≤ context.options.suppressionWindow := by
  constructor
  · rintro ⟨⟨diagnostic, hsorted, hover⟩, hnone⟩
    have hbraces : ∀ token ∈ state.rest, token.kind = Symbol.rightBrace :=
      hrest ▸ braces_of_fits hfits hnone
    obtain ⟨-, -, hsome⟩ := hportions.strays hbraces hresync (Nat.le_refl _)
    rw [Nat.add_sub_cancel_left] at hsome
    refine ⟨hbraces, Nat.not_lt.1 fun hmany => ?_⟩
    obtain ⟨stray, hstray, hsyntax⟩ := hsome hmany
    obtain ⟨other, hother, hidentity⟩ := Diagnostics.exists_mem_sorted hstray
    rw [hsorted, List.mem_singleton] at hother
    have hsame := (Diagnostic.identity_eq_iff.1 hidentity).1
    rw [hother, hover, hsyntax] at hsame
    cases hsame
  · rintro ⟨hbraces, hfew⟩
    obtain ⟨hnone, hsame, -⟩ := hportions.strays hbraces hresync (Nat.le_refl _)
    rw [Nat.add_sub_cancel_left] at hsame
    have hitems : last.diagnostics = ⟨[report]⟩ := by
      rw [hsame hfew, ← hreports]
    rw [hitems, Diagnostics.sorted_singleton]
    exact ⟨⟨report, rfl, hcode⟩, hnone⟩

/-- What comes of a first statement that stops at an overflow. -/
theorem parse_of_stop (hr : (startState source text options).rest = token :: rest)
    (hk : token.kind ≠ Symbol.rightBrace) (hlexical : (tokenize source text).2 = [])
    (hfailed : statement (level (options.maxDepth + 1)) ⟨source, text, options⟩
      (startState source text options) = .error .recovered failed)
    (hunwinding : failed.unwinding.isSome)
    (hreports : failed.diagnostics.items = [overflowReport ⟨source, text, options⟩ failed.rest])
    (hparse : parse source text options = .ok output) :
    (∃ diagnostic ∈ output.diagnostics, diagnostic.code = .maxDepthExceeded ∧
      diagnostic.span = nextSpan ⟨source, text, options⟩ failed.rest) ∧
    (braceLevel? 0 (readBy (startState source text options) failed) = failed.unwinding →
      CutShort source options.suppressionWindow (startState source text options) failed
        output) := by
  let reading := ofText source text options
  let start := startState source text options
  obtain ⟨node, more, last, hmore, ⟨first, hfirst, hspan⟩, hfits, hsplit, hremaining, hitems, hnode,
    hshown⟩ := portioned_of_stop hr hk hfailed hparse
  obtain ⟨hd, -⟩ := recovered_of_stop hfailed
  rw [hlexical, List.nil_append] at hshown
  have hfirst' : (recovered reading start failed).diagnostics.items =
    [overflowReport ⟨source, text, options⟩ failed.rest] := hreports
  constructor
  · have hreport : overflowReport ⟨source, text, options⟩ failed.rest ∈ last.diagnostics.items :=
      hmore.reported.mem (hfirst' ▸ List.mem_cons_self)
    rw [hshown]
    exact (Diagnostics.reports_finish_zero _ _).2 ⟨_, hreport, rfl, rfl⟩
  · intro hlevel
    have hsingle := single_iff hmore hfits hremaining rfl hfirst' rfl
    exact
      { split := hremaining ▸ hsplit
        level := fun hne => by
          refine (balanced_append_iff (hd.passedOver_closes hr hk hne)).2 ?_
          obtain ⟨blocks, hblocks⟩ := Option.isSome_iff_exists.1 hunwinding
          rw [hlevel, hblocks, Option.getD_some]
        resumes := (skipped_resumes start failed).append _
        error := ⟨first, hfirst, node.id, by rw [hitems]; rfl, by rw [hnode, hspan]⟩
        single := by
          rw [hshown, hitems, List.length_cons, List.length_map, Nat.add_eq_right,
            List.length_eq_zero_iff]
          exact hsingle }

/-- A text that is one statement without errors is parsed alike with any other limit of the depth,
or it overflows. Then the overflow is reported, and what becomes of the statement depends on what
the recovery leaves behind. -/
theorem parse_overflows {source : SourceId} {text : List Char} {options : ParseOptions}
    {limit : Nat} {whole : ParseOutput}
    (hwhole : parse source text { options with maxDepth := limit } = .ok whole)
    (hclean : whole.diagnostics = []) (hone : whole.tree.items.length = 1) :
    parse source text options = .ok whole ∨
    (∃ failed output, statement (level (options.maxDepth + 1)) ⟨source, text, options⟩
        (startState source text options) = .error .recovered failed ∧
      failed.unwinding.isSome ∧ parse source text options = .ok output ∧
      (∃ diagnostic ∈ output.diagnostics, diagnostic.code = .maxDepthExceeded ∧
        diagnostic.span = nextSpan ⟨source, text, options⟩ failed.rest) ∧
      (braceLevel? 0 (readBy (startState source text options) failed) = failed.unwinding →
        CutShort source options.suppressionWindow (startState source text options) failed
          output)) ∨
    Crashes source text options := by
  have hnone : ∀ {output : ParseOutput}, output.diagnostics = [] →
      ∀ diagnostic ∈ output.diagnostics, diagnostic.code ≠ .maxDepthExceeded :=
    fun h diagnostic hd => by rw [h] at hd; cases hd
  rcases Nat.le_total limit options.maxDepth with hge | hle
  · exact .inl (@parse_of_fits source text { options with maxDepth := limit } options.maxDepth whole
      hge hwhole (hnone hclean))
  rcases (parse_completes source text options).symm with hcrash | ⟨-, -, output, -, hparse, -⟩
  · exact .inr (.inr hcrash)
  obtain ⟨node, after, hsingle⟩ := exists_oneStatement hwhole hclean hone
  rcases statement_deepened hle hsingle.read with hread | ⟨failed, hfailed, hcut⟩
  · have hsame : OneStatement source text options node after := { hsingle with read := hread }
    have hdeeper := parse_of_fits hle hparse (hnone (hsame.diagnostics_eq_nil hparse))
    obtain rfl := Except.ok.inj (hwhole.symm.trans hdeeper)
    exact .inl hparse
  · obtain ⟨front, hunwinding, hreports, hfront⟩ := hcut
    rw [hsingle.reports, List.prefix_nil] at hfront
    rw [hfront, List.nil_append] at hreports
    obtain ⟨token, rest, hr, hk⟩ : ∃ token rest, (startState source text options).rest =
      token :: rest ∧ token.kind ≠ Symbol.rightBrace := hsingle.begun
    obtain ⟨hover, hshort⟩ := parse_of_stop hr hk hsingle.lexical hfailed hunwinding hreports hparse
    exact .inr (.inl ⟨failed, output, hfailed, hunwinding, hparse, hover, hshort⟩)

end

/-- With the default limit, `if ((x)) reset q;` is one statement without errors. -/
theorem parse_reset_whole : ∃ whole,
    parse ⟨0⟩ "if ((x)) reset q;".toList { maxDepth := 256 } = .ok whole ∧
      whole.diagnostics = [] ∧ whole.tree.items.length = 1 := by
  let text := "if ((x)) reset q;".toList
  have hlexical : (tokenize ⟨0⟩ text).2 = [] := by decide +kernel
  have hnone : (ending (program ⟨⟨0⟩, text, { maxDepth := 256 }⟩
      (startState ⟨0⟩ text { maxDepth := 256 }))).diagnostics.items.length = 0 := by
    decide +kernel
  have hone : (parse ⟨0⟩ text { maxDepth := 256 }).toOption.map (·.tree.items.length) = some 1 := by
    decide +kernel
  cases hparse : parse ⟨0⟩ text { maxDepth := 256 } with
  | error failure =>
    rw [hparse] at hone
    cases hone
  | ok whole =>
    rw [hparse] at hone
    obtain ⟨root, state, hprogram, -, -, hshown⟩ := exists_of_parse_ok hparse
    rw [hprogram, List.length_eq_zero_iff] at hnone
    refine ⟨whole, rfl, ?_, Option.some.inj hone⟩
    rw [hshown, Diagnostics.sorted_eq_nil_iff, hlexical]
    exact hnone

/-- With a depth of one, it is cut short, and its body is an item of its own. -/
theorem parse_reset_short : ∃ output,
    parse ⟨0⟩ "if ((x)) reset q;".toList { maxDepth := 1 } = .ok output ∧
      output.tree.items.length = 2 := by
  let text := "if ((x)) reset q;".toList
  have htwo : (parse ⟨0⟩ text { maxDepth := 1 }).toOption.map (·.tree.items.length) = some 2 := by
    decide +kernel
  cases hparse : parse ⟨0⟩ text { maxDepth := 1 } with
  | error failure =>
    rw [hparse] at htwo
    cases htwo
  | ok output =>
    rw [hparse] at htwo
    exact ⟨output, rfl, Option.some.inj htwo⟩

/-- The body of `if ((x)) reset q;` is left behind the error. -/
theorem parse_overflows_reset : ∃ text whole, text = "if ((x)) reset q;".toList ∧
    parse ⟨0⟩ text { maxDepth := 256 } = .ok whole ∧ whole.diagnostics = [] ∧
    whole.tree.items.length = 1 ∧
    ∃ failed output, statement (level 2) ⟨⟨0⟩, text, { maxDepth := 1 }⟩
        (startState ⟨0⟩ text { maxDepth := 1 }) = .error .recovered failed ∧
      failed.unwinding.isSome ∧ parse ⟨0⟩ text { maxDepth := 1 } = .ok output ∧
      (∃ diagnostic ∈ output.diagnostics, diagnostic.code = .maxDepthExceeded ∧
        diagnostic.span = nextSpan ⟨⟨0⟩, text, { maxDepth := 1 }⟩ failed.rest) ∧
      CutShort ⟨0⟩ 4 (startState ⟨0⟩ text { maxDepth := 1 }) failed output := by
  let text := "if ((x)) reset q;".toList
  let start := startState ⟨0⟩ text { maxDepth := 1 }
  obtain ⟨whole, hwhole, hclean, hone⟩ := parse_reset_whole
  obtain ⟨short, hshort, htwo⟩ := parse_reset_short
  have htold : braceLevel? 0 (readBy start
      (ending (statement (level 2) ⟨⟨0⟩, text, { maxDepth := 1 }⟩ start))) =
        (ending (statement (level 2) ⟨⟨0⟩, text, { maxDepth := 1 }⟩ start)).unwinding := by
    decide +kernel
  rcases @parse_overflows ⟨0⟩ text { maxDepth := 1 } 256 whole hwhole hclean hone with
    hsame | ⟨failed, output, hfailed, hunwinding, hparse, hreport, hcut⟩ | hcrash
  · obtain rfl := Except.ok.inj (hsame.symm.trans hshort)
    rw [hone] at htwo
    cases htwo
  · rw [hfailed] at htold
    exact ⟨text, whole, rfl, hwhole, hclean, hone, failed, output, hfailed, hunwinding, hparse,
      hreport, hcut htold⟩
  · exact absurd hcrash (not_crashes (by rw [hshort]; rfl))

/-- A statement that is too deep may leave more than an error: `if ((x)) reset q;` does. -/
theorem not_single_reset :
    ¬∀ text options limit whole, 1 ≤ options.maxDepth → options.suppressionWindow = 4 →
      (∀ deeper, limit ≤ deeper →
        parse ⟨0⟩ text { options with maxDepth := deeper } = .ok whole) →
      whole.diagnostics = [] → whole.tree.items.length = 1 →
      ∃ output, parse ⟨0⟩ text options = .ok output ∧
        (output = whole ∨
          (∃ diagnostic, output.diagnostics = [diagnostic] ∧ diagnostic.code = .maxDepthExceeded) ∧
          ∃ id, output.tree.items = [id] ∧ output.tree.kind? id = some .error) := by
  intro hall
  obtain ⟨whole, hwhole, hclean, hone⟩ := parse_reset_whole
  obtain ⟨short, hshort, htwo⟩ := parse_reset_short
  have hdeeper : ∀ deeper, 256 ≤ deeper →
      parse ⟨0⟩ "if ((x)) reset q;".toList { maxDepth := deeper } = .ok whole := fun deeper hle =>
    @parse_of_fits ⟨0⟩ _ { maxDepth := 256 } deeper whole hle hwhole fun _ hd => by
      rw [hclean] at hd
      cases hd
  obtain ⟨output, hparse, hend⟩ :=
    hall _ { maxDepth := 1 } 256 whole (Nat.le_refl 1) rfl hdeeper hclean hone
  obtain rfl := Except.ok.inj (hparse.symm.trans hshort)
  rcases hend with rfl | ⟨-, id, hitems, -⟩
  · rw [hone] at htwo
    cases htwo
  · rw [hitems] at htwo
    cases htwo

end OpenQasm.Grammar
