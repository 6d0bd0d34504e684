import Mathlib.Data.List.Nodup
import Mathlib.Logic.ExistsUnique
import OpenQasm.Proofs.Grammar.Atomicity
import OpenQasm.Proofs.Grammar.Nesting
import OpenQasm.Proofs.Grammar.Silence
import OpenQasm.Proofs.Token.Tiling

/-!
# Portions of a program

A program takes the tokens of its text in portions, from the first token to the last one: a
statement, an error in place of one, or a closing brace without a block. So the spans of its
statements divide the tokens among them, however the statements end and wherever the recovery goes
on.
-/

namespace OpenQasm

/-- Spans and stray closing braces that divide some tokens among them. The spans follow each other,
each from the start of a token to the end of one; every token lies inside one of them, but for the
strays, which lie inside none. -/
structure Partitioned (tokens strays : List Token) (spans : List Span) : Prop where
  ordered : spans.Pairwise fun left right => left.stop ≤ right.start
  nonempty : ∀ span ∈ spans, span.start < span.stop
  starts : ∀ span ∈ spans, ∃ token ∈ tokens, token.span.start = span.start
  stops : ∀ span ∈ spans, ∃ token ∈ tokens, token.span.stop = span.stop
  inside : ∀ token ∈ tokens, token ∉ strays → ∃! span, span ∈ spans ∧ span.contains token.span
  outside : ∀ token ∈ strays, token ∈ tokens ∧ token.kind = Symbol.rightBrace ∧
    ∀ span ∈ spans, ¬span.overlaps token.span

namespace Grammar

open Reading

/-! ## Runs -/

/-- A program takes all tokens ahead, portion by portion. -/
inductive Portioned (item : Parser Placed) (context : Context) :
    State → List Portion → State → Prop
  | done {state : State} : state.rest = [] → Portioned item context state [] state
  | next {state middle last : State} {portion : Portion} {portions : List Portion} :
      Takes item context state portion middle → Portioned item context middle portions last →
      Portioned item context state (portion :: portions) last

section
variable {reading : Reading} {levels : Nat} {start state last : State} {item : Parser Placed}
  {items result : List Placed} {portions : List Portion}

/-- A round of a program is the last one, or takes a portion, or crashes. -/
theorem programRound_cases (hs : reading.Listed levels start items state)
    (hitem : ∀ token rest, state.rest = token :: rest → token.kind ≠ Symbol.rightBrace →
      reading.Runs item state (reading.Yields True .statement levels state)
        fun after => reading.Dropped state after ∧ 0 < state.openBlocks) :
    (state.rest = [] ∧ programRound item items reading.context state = .ok (.done items) state) ∨
    (∃ portion after, Takes item reading.context state portion after ∧
      programRound item items reading.context state =
        .ok (.again (items ++ portion.item?.toList)) after ∧
      reading.Listed levels start (items ++ portion.item?.toList) after) ∨
    ∃ failure after, programRound item items reading.context state = .error failure after := by
  have hround := programRound_runs hs hitem
  unfold Runs at hround
  cases hr : programRound item items reading.context state with
  | error failure after => exact .inr (.inr ⟨failure, after, rfl⟩)
  | ok turn after =>
    rw [hr] at hround
    cases turn with
    | done result =>
      obtain ⟨hnil, rfl, rfl⟩ := hround
      exact .inl ⟨hnil, rfl⟩
    | again items' =>
      obtain ⟨portion, htakes, rfl, hlisted, -⟩ := hround
      exact .inr (.inl ⟨portion, after, htakes, rfl, hlisted⟩)

/-- The item of the first portion comes first. -/
theorem filterMap_item?_cons (portion : Portion) (portions : List Portion) :
    (portion :: portions).filterMap Portion.item? =
      portion.item?.toList ++ portions.filterMap Portion.item? := by
  cases portion <;> rfl

/-- The rounds of a program take a portion each until there is none left. -/
theorem iterateAlong_portioned
    (hitem : ∀ state token rest, reading.Ready levels state → state.rest = token :: rest →
      token.kind ≠ Symbol.rightBrace →
      reading.Runs item state (reading.Yields True .statement levels state)
        fun after => reading.Dropped state after ∧ 0 < state.openBlocks)
    (hs : reading.Listed levels start items state) (tokens : List Token)
    (h : iterateAlong (programRound item) tokens items reading.context state = .ok result last) :
    ∃ portions, Portioned item reading.context state portions last ∧
      result = items ++ portions.filterMap Portion.item? ∧
      reading.Listed levels start result last := by
  induction tokens generalizing items state with
  | nil =>
    unfold iterateAlong at h
    rcases programRound_cases hs fun token rest => hitem state token rest hs.ready with
      ⟨hnil, hround⟩ | ⟨portion, after, -, hround, -⟩ | ⟨failure, after, hround⟩
    · rw [bind_of_ok hround] at h
      obtain ⟨rfl, rfl⟩ := EStateM.Result.ok.inj h
      exact ⟨[], .done hnil, by simp, hs⟩
    · rw [bind_of_ok hround] at h
      cases h
    · rw [bind_of_error hround] at h
      cases h
  | cons token tokens ih =>
    unfold iterateAlong at h
    rcases programRound_cases hs fun token rest => hitem state token rest hs.ready with
      ⟨hnil, hround⟩ | ⟨portion, after, htakes, hround, hlisted⟩ | ⟨failure, after, hround⟩
    · rw [bind_of_ok hround] at h
      obtain ⟨rfl, rfl⟩ := EStateM.Result.ok.inj h
      exact ⟨[], .done hnil, by simp, hs⟩
    · rw [bind_of_ok hround] at h
      obtain ⟨portions, hportions, rfl, hlast⟩ := ih hlisted h
      refine ⟨portion :: portions, .next htakes hportions, ?_, hlast⟩
      rw [filterMap_item?_cons, List.append_assoc]
    · rw [bind_of_error hround] at h
      cases h

/-- The portions of a program are its tokens in their order. -/
theorem Portioned.fits (h : Portioned item reading.context state portions last)
    (hitem : ∀ state token rest, reading.Ready levels state → state.rest = token :: rest →
      token.kind ≠ Symbol.rightBrace →
      reading.Runs item state (reading.Yields True .statement levels state)
        fun after => reading.Dropped state after ∧ 0 < state.openBlocks)
    (hs : reading.Listed levels start items state) :
    state.rest = portions.flatMap Portion.tokens ∧
      ∀ portion ∈ portions, portion.Fits reading.context.source := by
  induction h generalizing items with
  | done hnil => exact ⟨hnil, fun _ hm => nomatch hm⟩
  | next htakes _ ih =>
    obtain ⟨hlisted, hsplit, hfits⟩ :=
      hs.takes htakes fun token rest => hitem _ token rest hs.ready
    obtain ⟨htokens, hrest⟩ := ih hlisted
    refine ⟨?_, fun portion hm => ?_⟩
    · rw [hsplit, htokens, List.flatMap_cons]
    · rcases List.mem_cons.1 hm with rfl | hm
      · exact hfits
      · exact hrest portion hm

/-- A portion that is read for a statement comes first if a statement is ahead. -/
theorem Portioned.cons_of_ok {context : Context} {token : Token} {rest : List Token} {node : Placed}
    {after : State} (h : Portioned item context state portions last)
    (hr : state.rest = token :: rest) (hk : token.kind ≠ Symbol.rightBrace)
    (hok : item context state = .ok node after) :
    ∃ more, portions = .item node (readBy state after) :: more ∧
      Portioned item context after more last := by
  cases h with
  | done hnil => cases hr.symm.trans hnil
  | next htakes hmore =>
    cases htakes with
    | stray hr' hk' => exact absurd ((List.cons.inj (hr.symm.trans hr')).1 ▸ hk') hk
    | item _ _ hok' =>
      obtain ⟨rfl, rfl⟩ := EStateM.Result.ok.inj (hok.symm.trans hok')
      exact ⟨_, rfl, hmore⟩

/-- A portion that is taken reports only more. -/
theorem Takes.reported {context : Context} {portion : Portion} {after : State}
    (h : Takes (statementOrError (level levels)) context state portion after) :
    Reported state after := by
  cases h with
  | @stray token rest reported _ _ hok =>
    have hreport := @Reports.reportSyntax "unexpected `\x7d`" context state
    rw [hok] at hreport
    exact hreport.trans (Reports.passOver (n := 1) context reported)
  | item _ _ hok =>
    have hread := item_reports levels context state
    rw [hok] at hread
    exact hread

/-- What is reported on the way stays. -/
theorem Portioned.reported {context : Context}
    (h : Portioned (statementOrError (level levels)) context state portions last) :
    Reported state last := by
  induction h with
  | done => exact .same rfl
  | next htakes _ ih => exact htakes.reported.trans ih

end

/-! ## Programs -/

/-- The statements of a program are read, or an error in place of one. -/
theorem item_runs {reading : Reading} {levels : Nat} (hf : ¬reading.fair) (state : State)
    (token : Token) (rest : List Token) (hs : reading.Ready levels state)
    (hr : state.rest = token :: rest) (hk : token.kind ≠ Symbol.rightBrace) :
    reading.Runs (statementOrError (level levels)) state
      (reading.Yields True .statement levels state)
      fun after => reading.Dropped state after ∧ 0 < state.openBlocks :=
  statementOrError_runs (level_spec hf) hs hr hk fun h => absurd h hf

/-- A node that is placed has been pushed. -/
theorem exists_of_place_ok {context : Context} {state after : State} {kind : NodeKind Placed}
    {span : Span} {root : Placed} (h : place kind span context state = .ok root after) :
    ∃ id builder, state.builder.push (kind.map Placed.id) span = .ok (id, builder) ∧
      root = ⟨id, kind.map Placed.id, span⟩ ∧ after = { state with builder } := by
  unfold place at h
  rw [get_bind] at h
  cases hpush : state.builder.push (kind.map Placed.id) span with
  | error fault =>
    simp only [hpush] at h
    cases h
  | ok pushed =>
    simp only [hpush, set_bind] at h
    obtain ⟨rfl, rfl⟩ := EStateM.Result.ok.inj h
    exact ⟨_, _, rfl, rfl, rfl⟩

section
variable {source : SourceId} {text : List Char} {options : ParseOptions} {root : Placed}
  {state : State}

/-- A program has taken its tokens in portions, and has put a node over the statements. -/
theorem program_portioned
    (h : program ⟨source, text, options⟩ (startState source text options) = .ok root state) :
    ∃ portions last nodes parents,
      Portioned (statementOrError (level (options.maxDepth + 1))) ⟨source, text, options⟩
        (startState source text options) portions last ∧
      state = { last with builder := state.builder } ∧
      Forest source 0 nodes parents (portions.filterMap Portion.item?) ∧
      root.kind = .program ((portions.filterMap Portion.item?).map Placed.id) ∧
      state.builder.nodes.toList = nodes ++ [⟨root.kind, root.span⟩] ∧
      last.builder.nodes.toList = nodes := by
  have hready := ready_startState source text options
  have hfair : ¬(ofText source text options).fair := id
  unfold program at h
  rw [read_bind] at h
  cases hitems : programItems (level (options.maxDepth + 1)) ⟨source, text, options⟩
      (startState source text options) with
  | error failure after =>
    rw [bind_of_error hitems] at h
    cases h
  | ok items last =>
    rw [bind_of_ok hitems] at h
    obtain ⟨id, builder, hpush, rfl, rfl⟩ := exists_of_place_ok h
    obtain ⟨portions, hportions, rfl, hlisted⟩ :=
      iterateAlong_portioned (item_runs hfair) (.nil hready rfl) _ hitems
    obtain ⟨nodes, parents, hforest, hbuilder⟩ := hlisted.grown
    refine ⟨portions, last, nodes, parents, hportions, rfl, hforest, rfl, ?_, ?_⟩
    · rw [Builder.nodes_of_push hpush, hbuilder]
      simp [startState]
    · rw [hbuilder]
      simp [startState]

/-- A parse takes the tokens of its text in portions, and the statements among these are the items
of its tree. -/
theorem parse_portioned (source : SourceId) (text : List Char) (options : ParseOptions) :
    (∃ output portions last, parse source text options = .ok output ∧
      Portioned (statementOrError (level (options.maxDepth + 1))) ⟨source, text, options⟩
        (startState source text options) portions last ∧
      output.tree.items = (portions.filterMap Portion.item?).map Placed.id ∧
      output.tree.items.map output.tree.node? =
        (portions.filterMap Portion.item?).map (fun item => some ⟨item.kind, item.span⟩) ∧
      output.diagnostics =
        Diagnostics.sorted ⟨(tokenize source text).2 ++ last.diagnostics.items⟩ ∧
      ∃ items span, output.tree.nodes = last.builder.nodes.push ⟨.program items, span⟩) ∨
    Crashes source text options := by
  refine (parse_completes source text options).imp_left ?_
  rintro ⟨top, ended, output, ⟨_, nodes', _, -, -, htop, hended, -⟩, hparse, htree, hid, -⟩
  obtain ⟨root, state, hprogram, hnodes, -, hreports⟩ := exists_of_parse_ok hparse
  obtain ⟨portions, last, nodes, parents, hportions, hsame, hforest, hkind, hall, hlast⟩ :=
    program_portioned hprogram
  have hnode : ∀ id, output.tree.node? id = (nodes ++ [⟨root.kind, root.span⟩])[id.index]? := by
    intro id
    rw [Tree.node?, ← hall, hnodes, Array.getElem?_toList]
  have hlength : nodes'.length = nodes.length := by
    have hsize := congrArg List.length hall
    rw [← hnodes, htree, hended] at hsize
    simpa [startState] using hsize
  have hroot : output.tree.node? output.tree.root = some ⟨root.kind, root.span⟩ := by
    rw [hnode, hid, htop]
    simp [startState, Builder.size, hlength]
  have hitems : output.tree.items = (portions.filterMap Portion.item?).map Placed.id := by
    unfold Tree.items Tree.kind?
    rw [hroot, Option.map_some, hkind]
  have hdiagnostics : state.diagnostics = last.diagnostics := by rw [hsame]
  refine ⟨output, portions, last, hparse, hportions, hitems, ?_, hdiagnostics ▸ hreports,
    (portions.filterMap Portion.item?).map Placed.id, root.span, ?_⟩
  · rw [hitems, List.map_map]
    refine List.map_congr_left fun item hm => ?_
    have hitem := (hforest.root_mem hm).2
    rw [Function.comp_apply, hnode]
    rw [Nat.sub_zero] at hitem
    rw [List.getElem?_append_left (List.getElem?_eq_some_iff.1 hitem).1, hitem]
  · rw [← Array.toList_inj, hnodes, hall, Array.toList_push, hlast, hkind]

end

/-! ## Spans -/

/-- Where a portion stands. -/
def Portion.span : Portion → Span
  | stray token => token.span
  | item node _ => node.span

/-- A portion stands from the start of one of its tokens to the end of one, around all of them. -/
structure Portion.Spanned (portion : Portion) : Prop where
  starts : ∃ token ∈ portion.tokens, token.span.start = portion.span.start
  stops : ∃ token ∈ portion.tokens, token.span.stop = portion.span.stop
  contains : ∀ token ∈ portion.tokens, portion.span.contains token.span

section
variable {source : SourceId} {tokens : List Token} {portions : List Portion} {portion : Portion}

/-- Tokens end where the last one of them does. -/
theorem exists_endAfter (ht : Separate source tokens) (hne : tokens ≠ []) (offset : Nat) :
    ∃ last ∈ tokens, endAfter offset tokens = last.span.stop ∧
      ∀ token ∈ tokens, token.span.stop ≤ last.span.stop := by
  obtain ⟨before, last, rfl⟩ : ∃ before last, tokens = before ++ [last] :=
    ⟨_, _, (List.dropLast_concat_getLast hne).symm⟩
  refine ⟨last, by simp, by simp, fun token hm => ?_⟩
  rcases List.mem_append.1 hm with hm | hm
  · have hle := (List.pairwise_append.1 ht.ordered).2.2 token hm last List.mem_cons_self
    have hlast := (ht.span last (by simp)).2
    omega
  · exact Nat.le_of_eq (by rw [List.mem_singleton.1 hm])

/-- A portion that fits is spanned by its item. -/
theorem Portion.Fits.spanned (h : portion.Fits source) (ht : Separate source portion.tokens) :
    portion.Spanned := by
  cases portion with
  | stray token =>
    have hself := token.span.contains_self
    refine ⟨⟨token, List.mem_cons_self, rfl⟩, ⟨token, List.mem_cons_self, rfl⟩, fun other hm => ?_⟩
    rw [List.mem_singleton.1 hm]
    exact hself
  | item node read =>
    obtain ⟨first, hfirst, hspan⟩ := h
    obtain ⟨more, rfl⟩ : ∃ more, read = first :: more := by
      cases read with
      | nil => cases hfirst
      | cons token more => exact ⟨more, by rw [Option.some.inj hfirst]⟩
    obtain ⟨last, hlast, hend, hle⟩ := exists_endAfter ht (List.cons_ne_nil _ _) 0
    rw [show (Portion.item node (first :: more)).tokens = first :: more from rfl] at hend
    refine ⟨⟨first, List.mem_cons_self, ?_⟩, ⟨last, hlast, ?_⟩, fun token hm => ?_⟩
    · rw [Portion.span, hspan]
    · rw [Portion.span, hspan, hend]
    · have hfront : first.span.start ≤ token.span.start := by
        rcases List.mem_cons.1 hm with rfl | hm
        · exact Nat.le_refl _
        · have hbefore := (List.pairwise_cons.1 ht.ordered).1 token hm
          have hnonempty := (ht.span first List.mem_cons_self).2
          omega
      rw [Portion.span, hspan, hend, Span.contains_iff]
      exact ⟨(ht.span token hm).1.symm, hfront, hle token hm⟩

/-- So are all portions of a text. -/
theorem spanned_of_fits (ht : Separate source (portions.flatMap Portion.tokens))
    (hf : ∀ portion ∈ portions, portion.Fits source) : ∀ portion ∈ portions, portion.Spanned := by
  intro portion hm
  refine (hf portion hm).spanned (ht.sublist ?_)
  rw [List.flatMap_def]
  exact List.sublist_flatten_of_mem (List.mem_map_of_mem hm)

/-- Portions follow each other as their tokens do. -/
theorem ordered_of_spanned (ht : Separate source (portions.flatMap Portion.tokens))
    (hs : ∀ portion ∈ portions, portion.Spanned) :
    portions.Pairwise fun left right => left.span.stop ≤ right.span.start := by
  refine (List.pairwise_flatMap.1 ht.ordered).2.imp_of_mem fun {left right} hl hr hlr => ?_
  obtain ⟨last, hlast, hstop⟩ := (hs left hl).stops
  obtain ⟨first, hfirst, hstart⟩ := (hs right hr).starts
  rw [← hstop, ← hstart]
  exact hlr last hlast first hfirst

/-- Of two portions that follow each other in some order, one ends before the other begins. -/
theorem apart_of_ordered {left right : Portion}
    (h : portions.Pairwise fun left right => left.span.stop ≤ right.span.start)
    (hl : left ∈ portions) (hr : right ∈ portions) :
    left = right ∨ left.span.stop ≤ right.span.start ∨ right.span.stop ≤ left.span.start := by
  let Apart (left right : Portion) : Prop :=
    left = right ∨ left.span.stop ≤ right.span.start ∨ right.span.stop ≤ left.span.start
  have hforth : portions.Pairwise Apart := h.imp fun hle => .inr (.inl hle)
  have hback : portions.Pairwise (flip Apart) := h.imp fun hle => .inr (.inr hle)
  exact hforth.forall_of_forall_of_flip (fun _ _ => .inl rfl) hback hl hr

/-- A span among those of the items is that of an item. -/
theorem exists_item {span : Span}
    (h : span ∈ (portions.filterMap Portion.item?).map Placed.span) :
    ∃ node read, .item node read ∈ portions ∧ (Portion.item node read).span = span := by
  obtain ⟨node, hnode, rfl⟩ := List.mem_map.1 h
  obtain ⟨portion, hportion, heq⟩ := List.mem_filterMap.1 hnode
  cases portion with
  | stray token => cases heq
  | item other read => exact ⟨other, read, hportion, congrArg Placed.span (Option.some.inj heq)⟩

/-- A token that is no stray lies inside the span of one item. -/
theorem exists_unique_item (ht : Separate source (portions.flatMap Portion.tokens))
    (hf : ∀ portion ∈ portions, portion.Fits source) {token : Token}
    (hm : token ∈ portions.flatMap Portion.tokens)
    (hn : token ∉ portions.filterMap Portion.stray?) :
    ∃! span, span ∈ (portions.filterMap Portion.item?).map Placed.span ∧
      span.contains token.span := by
  have hspanned := spanned_of_fits ht hf
  have hordered := ordered_of_spanned ht hspanned
  obtain ⟨portion, hportion, htoken⟩ := List.mem_flatMap.1 hm
  have hcontains := (hspanned portion hportion).contains token htoken
  cases portion with
  | stray other =>
    have hother : other ∈ portions.filterMap Portion.stray? :=
      List.mem_filterMap.2 ⟨.stray other, hportion, rfl⟩
    exact absurd (List.mem_singleton.1 htoken ▸ hother) hn
  | item node read =>
    have hnode : node.span ∈ (portions.filterMap Portion.item?).map Placed.span :=
      List.mem_map_of_mem (List.mem_filterMap.2 ⟨_, hportion, rfl⟩)
    refine ⟨node.span, ⟨hnode, hcontains⟩, ?_⟩
    rintro span ⟨hspan, hcontains'⟩
    obtain ⟨other, read', hportion', rfl⟩ := exists_item hspan
    have hnonempty := (ht.span token hm).2
    rw [Span.contains_iff] at hcontains hcontains'
    rcases apart_of_ordered hordered hportion hportion' with heq | hle | hle
    · rw [← heq]
      rfl
    · omega
    · omega

/-- A stray is a closing brace in the span of no item. -/
theorem stray_outside (ht : Separate source (portions.flatMap Portion.tokens))
    (hf : ∀ portion ∈ portions, portion.Fits source) {token : Token}
    (hm : token ∈ portions.filterMap Portion.stray?) :
    token ∈ portions.flatMap Portion.tokens ∧ token.kind = Symbol.rightBrace ∧
      ∀ span ∈ (portions.filterMap Portion.item?).map Placed.span,
        ¬span.overlaps token.span := by
  have hordered := ordered_of_spanned ht (spanned_of_fits ht hf)
  obtain ⟨portion, hportion, heq⟩ := List.mem_filterMap.1 hm
  cases portion with
  | item node read => cases heq
  | stray other =>
    obtain rfl := Option.some.inj heq
    refine ⟨List.mem_flatMap.2 ⟨_, hportion, List.mem_cons_self⟩, hf _ hportion, ?_⟩
    intro span hspan hover
    obtain ⟨node, read, hportion', rfl⟩ := exists_item hspan
    simp only [Span.overlaps, Bool.and_eq_true, decide_eq_true_eq] at hover
    have hstray : (Portion.stray other).span = other.span := rfl
    rcases apart_of_ordered hordered hportion hportion' with heq | hle | hle
    · cases heq
    · rw [hstray] at hle
      omega
    · rw [hstray] at hle
      omega

/-- Portions that fit their tokens partition these. -/
theorem partitioned_of_fits (ht : Separate source (portions.flatMap Portion.tokens))
    (hf : ∀ portion ∈ portions, portion.Fits source) :
    Partitioned (portions.flatMap Portion.tokens) (portions.filterMap Portion.stray?)
      ((portions.filterMap Portion.item?).map Placed.span) := by
  have hspanned := spanned_of_fits ht hf
  have htoken : ∀ {portion}, portion ∈ portions → ∀ token ∈ portion.tokens,
      token ∈ portions.flatMap Portion.tokens :=
    fun hportion token hm => List.mem_flatMap.2 ⟨_, hportion, hm⟩
  exact
    { ordered := by
        rw [List.pairwise_map, List.pairwise_filterMap]
        refine (ordered_of_spanned ht hspanned).imp fun {left right} hle node hl other hr => ?_
        cases left <;> cases right <;> cases hl <;> cases hr
        exact hle
      nonempty := fun span hm => by
        obtain ⟨node, read, hportion, rfl⟩ := exists_item hm
        obtain ⟨token, htok, hstart⟩ := (hspanned _ hportion).starts
        have hcontains := Span.contains_iff.1 ((hspanned _ hportion).contains token htok)
        have hnonempty := (ht.span token (htoken hportion token htok)).2
        omega
      starts := fun span hm => by
        obtain ⟨node, read, hportion, rfl⟩ := exists_item hm
        obtain ⟨token, htok, hstart⟩ := (hspanned _ hportion).starts
        exact ⟨token, htoken hportion token htok, hstart⟩
      stops := fun span hm => by
        obtain ⟨node, read, hportion, rfl⟩ := exists_item hm
        obtain ⟨token, htok, hstop⟩ := (hspanned _ hportion).stops
        exact ⟨token, htoken hportion token htok, hstop⟩
      inside := fun token hm hn => exists_unique_item ht hf hm hn
      outside := fun token hm => stray_outside ht hf hm }

end

/-! ## Parses -/

section
variable {source : SourceId} {text : List Char} {options : ParseOptions} {output : ParseOutput}
  {portions : List Portion} {last : State} {id left right : NodeId} {span : Span}

/-- The portions of a text fit its tokens, which stand apart. -/
theorem Portioned.separate
    (h : Portioned (statementOrError (level (options.maxDepth + 1))) ⟨source, text, options⟩
      (startState source text options) portions last) (hle : Text.width text ≤ maxOffset) :
    (startState source text options).rest = portions.flatMap Portion.tokens ∧
      Separate source (portions.flatMap Portion.tokens) ∧
      ∀ portion ∈ portions, portion.Fits source := by
  have hready := ready_startState source text options
  have hfair : ¬(ofText source text options).fair := id
  have hreads : Portioned (statementOrError (level (options.maxDepth + 1)))
    (ofText source text options).context (startState source text options) portions last := h
  obtain ⟨htokens, hfits⟩ := hreads.fits (item_runs hfair) (.nil hready rfl)
  have hseparate : Separate source (startState source text options).rest :=
    (tokenize_separate source text hle).sublist List.filter_sublist
  exact ⟨htokens, htokens ▸ hseparate, hfits⟩

/-- The spans of the statements of a program are about its source, and no two of them are the
same. -/
theorem spans_of_parse (h : parse source text options = .ok output)
    (hle : Text.width text ≤ maxOffset) : ∃ spans : List Span,
      output.tree.items.map (fun id => (output.tree.node? id).map Node.span) = spans.map some ∧
      spans.Nodup ∧ ∀ span ∈ spans, span.source = source := by
  rcases parse_portioned source text options with
    ⟨output', portions, last, hparse, hportions, -, hnodes, -⟩ | ⟨_, herror, -⟩
  · obtain rfl := Except.ok.inj (hparse.symm.trans h)
    obtain ⟨-, hseparate, hfits⟩ := hportions.separate hle
    have hpartitioned := partitioned_of_fits hseparate hfits
    refine ⟨_, ?_, hpartitioned.ordered.imp_of_mem ?_, fun span hm => ?_⟩
    · have hspans := congrArg (List.map (Option.map Node.span)) hnodes
      rw [List.map_map, List.map_map] at hspans
      rw [List.map_map]
      exact hspans
    · rintro left right hl hr hordered rfl
      exact Nat.not_lt.2 hordered (hpartitioned.nonempty left hl)
    · obtain ⟨node, read, hportion, rfl⟩ := exists_item hm
      obtain ⟨first, -, hspan⟩ := hfits _ hportion
      rw [Portion.span, hspan]
  · cases herror.symm.trans h

/-- A statement of a program is about its source. -/
theorem source_of_item (h : parse source text options = .ok output)
    (hle : Text.width text ≤ maxOffset) (hi : id ∈ output.tree.items) {kind : NodeKind NodeId}
    (hn : output.tree.node? id = some ⟨kind, span⟩) : span.source = source := by
  obtain ⟨spans, hspans, -, hsource⟩ := spans_of_parse h hle
  refine hsource span ?_
  have hm : some span ∈ spans.map some := hspans ▸ List.mem_map.2 ⟨id, hi, by rw [hn]; rfl⟩
  obtain ⟨_, hm, heq⟩ := List.mem_map.1 hm
  exact Option.some.inj heq ▸ hm

/-- A statement of a program is told by its span. -/
theorem item_inj (h : parse source text options = .ok output) (hle : Text.width text ≤ maxOffset)
    (hl : left ∈ output.tree.items) (hr : right ∈ output.tree.items)
    (hspan : (output.tree.node? left).map Node.span = (output.tree.node? right).map Node.span) :
    left = right := by
  obtain ⟨spans, hspans, hnodup, -⟩ := spans_of_parse h hle
  have hnodup' : (spans.map some).Nodup := hnodup.map fun _ _ heq => Option.some.inj heq
  rw [← hspans] at hnodup'
  exact List.inj_on_of_nodup_map hnodup' hl hr hspan

end

/-- The items of a parsed program partition the tokens of the text, but for the closing braces that
the program passes over. There is a tree unless the machine numbers do not suffice. -/
theorem parse_partitions (source : SourceId) (text : List Char) (options : ParseOptions)
    (h : Text.width text < 2 ^ 32) :
    (∃ output portions last spans, parse source text options = .ok output ∧
      Portioned (statementOrError (level (options.maxDepth + 1))) ⟨source, text, options⟩
        (startState source text options) portions last ∧
      output.tree.items = (portions.filterMap Portion.item?).map Placed.id ∧
      output.tree.items.map output.tree.span? = spans.map some ∧
      Partitioned (startState source text options).rest (portions.filterMap Portion.stray?)
        spans) ∨
    Crashes source text options := by
  refine (parse_portioned source text options).imp_left ?_
  rintro ⟨output, portions, last, hparse, hportions, hitems, hnodes, -, -⟩
  refine ⟨output, portions, last, (portions.filterMap Portion.item?).map Placed.span, hparse,
    hportions, hitems, ?_, ?_⟩
  · have hspans := congrArg (List.map (Option.map Node.span)) hnodes
    rw [List.map_map, List.map_map] at hspans
    rw [List.map_map]
    exact hspans
  · obtain ⟨htokens, hseparate, hfits⟩ := hportions.separate (Nat.le_of_lt_succ h)
    rw [htokens]
    exact partitioned_of_fits hseparate hfits

/-- Stray braces, an overflow of the depth and an error that is recovered from, one after the
other. -/
theorem parse_partitions_faults : ∃ text : List Char,
    text = "\x7d if ((x)) reset q; \x7d h ) a[1] \x7d = 2;".toList ∧ Text.width text < 2 ^ 32 ∧
      ∃ output portions last spans, parse ⟨0⟩ text { maxDepth := 1 } = .ok output ∧
        Portioned (statementOrError (level 2)) ⟨⟨0⟩, text, { maxDepth := 1 }⟩
          (startState ⟨0⟩ text { maxDepth := 1 }) portions last ∧
        output.tree.items = (portions.filterMap Portion.item?).map Placed.id ∧
        output.tree.items.map output.tree.span? = spans.map some ∧
        Partitioned (startState ⟨0⟩ text { maxDepth := 1 }).rest
          (portions.filterMap Portion.stray?) spans := by
  let text := "\x7d if ((x)) reset q; \x7d h ) a[1] \x7d = 2;".toList
  have hwidth : Text.width text < 2 ^ 32 := by decide +kernel
  have hends : (parse ⟨0⟩ text { maxDepth := 1 }).toBool = true := by decide +kernel
  exact ⟨text, rfl, hwidth,
    (parse_partitions ⟨0⟩ text { maxDepth := 1 } hwidth).resolve_right (not_crashes hends)⟩

end Grammar

end OpenQasm
