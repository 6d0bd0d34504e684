import OpenQasm.Proofs.Grammar.Coming
import OpenQasm.Proofs.Grammar.Inclusions
import OpenQasm.Proofs.Grammar.Silence
import OpenQasm.Proofs.Grammar.Spans
import OpenQasm.Proofs.Token.Calibration

/-!
# Calibrations of a tree

A node of a calibration is attested by the tokens: its keyword, the signature, and the body right
behind it. Where there are no error tokens, the text shows the same.
-/

namespace OpenQasm.Grammar

/-! ## Tokens -/

/-- A node that is a calibration or a calibration definition is made up of tokens in a row. -/
inductive Attested (context : Context) (tokens : List Token) : Node → Prop
  | cal {before after : List Token} {keyword block : Token} :
      tokens = before ++ keyword :: block :: after → keyword.kind = Keyword.kwCal →
      block.kind = .calibrationBody →
      Attested context tokens ⟨.cal (String.ofList (block.text.drop 1).dropLast),
        ⟨context.source, keyword.span.start, max block.span.stop keyword.span.start⟩⟩
  | defcal {before more after : List Token} {keyword first block : Token} :
      tokens = before ++ keyword :: (first :: more ++ block :: after) →
      keyword.kind = Keyword.kwDefcal → block.kind = .calibrationBody →
      (∀ token ∈ first :: more, endsSignature token.kind = false) →
      Attested context tokens
        ⟨.defcal (String.ofList first.text)
          (String.ofList (Text.trim ((Text.slice? context.text first.span.start
            (endAfter keyword.span.stop (first :: more))).getD [])))
          (String.ofList (block.text.drop 1).dropLast),
        ⟨context.source, keyword.span.start, max block.span.stop keyword.span.start⟩⟩
  | other {kind : NodeKind NodeId} {span : Span} : (∀ body, kind ≠ .cal body) →
      (∀ target signature body, kind ≠ .defcal target signature body) →
      Attested context tokens ⟨kind, span⟩

/-- The tokens ahead are the last ones, and all nodes so far are attested. -/
structure Witnessed (context : Context) (tokens : List Token) (state : State) : Prop where
  rest : state.rest <:+ tokens
  nodes : ∀ node ∈ state.builder.nodes, Attested context tokens node

/-- What is attested stays so. -/
def Attests (context : Context) (tokens : List Token) (before after : State) : Prop :=
  Witnessed context tokens before → Witnessed context tokens after

section
variable {α : Type} {context : Context} {tokens : List Token} {state : State}

/-- The tokens ahead are witnessed when some are passed. -/
theorem Witnessed.pass (h : Witnessed context tokens state) (n : Nat) :
    Witnessed context tokens (State.pass n state) := by
  induction n generalizing state with
  | zero => exact h
  | succ n ih =>
    rw [State.pass]
    split
    · exact h
    · next token rest hr => exact ih ⟨(hr ▸ List.suffix_cons token rest).trans h.rest, h.nodes⟩

/-- One more attested node. -/
theorem Witnessed.push {node : Node} {builder : Builder} (h : Witnessed context tokens state)
    (hb : builder.nodes = state.builder.nodes.push node) (hn : Attested context tokens node) :
    Witnessed context tokens { state with builder } where
  rest := h.rest
  nodes other hm := by
    rcases Array.mem_push.1 (hb ▸ hm) with hm | rfl
    · exact h.nodes other hm
    · exact hn

/-- A node that may be placed where calibrations may not is attested. -/
theorem attested_of_placeable {has : Feature → Prop} (hno : ¬has .calibration)
    {kind : NodeKind Placed} {span : Span} (h : kind = .error ∨ Placeable has kind) :
    Attested context tokens ⟨kind.map Placed.id, span⟩ := by
  refine .other (fun body hk => ?_) fun target signature body hk => ?_
  all_goals
    rcases h with rfl | h
    · cases hk
    · cases kind <;> first | exact absurd h.2 hno | cases hk

/-- What places no calibration keeps what is attested. -/
theorem stable_attests {has : Feature → Prop} (hno : ¬has .calibration) (context : Context)
    (tokens : List Token) : Stable has (Attests context tokens) where
  same hr _ hb _ h := ⟨hr ▸ h.rest, hb ▸ h.nodes⟩
  trans h h' hwitnessed := h' (h hwitnessed)
  pass n _ h := h.pass n
  push _ _ h := ⟨h.rest, h.nodes⟩
  place hk hpush h := h.push (Builder.nodes_of_push hpush) (attested_of_placeable hno hk)
  literal state id value h := by
    refine ⟨h.rest, fun node hm => ?_⟩
    obtain ⟨index, hlt, rfl⟩ := Array.mem_iff_getElem.1 hm
    simp only [Builder.setKind, Array.getElem_modify]
    split
    · exact .other (fun _ hk => by cases hk) fun _ _ _ hk => by cases hk
    · exact h.nodes _ (Array.getElem_mem _)
  truncate state mark h := by
    refine ⟨h.rest, fun node hm => ?_⟩
    obtain ⟨index, hlt, rfl⟩ := Array.mem_iff_getElem.1 hm
    simp only [Builder.truncate, Array.take_eq_extract, Array.getElem_extract]
    exact h.nodes _ (Array.getElem_mem _)
  openBlock h hwitnessed := by
    have hinside := h ⟨hwitnessed.rest, hwitnessed.nodes⟩
    exact ⟨hinside.rest, hinside.nodes⟩

/-- Where no calibration may be placed all are attested. -/
theorem plain_attests (context : Context) (tokens : List Token) :
    Stable (· = .tracked) (Attests context tokens) := stable_attests nofun context tokens

/-- What is composed without calibrations attests all of them. -/
theorem attests_of_plain {parser : Parser α} (hc : Composed (· = .tracked) fun _ => parser) :
    Stays context (Attests context tokens) parser := hc.stays_alone (plain_attests context tokens)

/-! ## Calibrations -/

/-- A node that is attested may be placed. -/
theorem place_attests {kind : NodeKind Placed} {span : Span}
    (hn : Attested context tokens ⟨kind.map Placed.id, span⟩) :
    Stays context (Attests context tokens) (place kind span) := by
  intro state hwitnessed
  unfold place
  rw [get_bind]
  cases hpush : state.builder.push (kind.map Placed.id) span with
  | ok pushed =>
    obtain ⟨id, builder⟩ := pushed
    exact hwitnessed.push (Builder.nodes_of_push hpush) hn
  | error fault => exact hwitnessed

/-- The body of a calibration, its version and its node. -/
theorem bodyTail_attests {start : Span} {feature : String} {kind : String → NodeKind Placed}
    (hn : ∀ block after, state.rest = block :: after → block.kind = .calibrationBody →
      Attested context tokens
        ⟨(kind (String.ofList (block.text.drop 1).dropLast)).map Placed.id,
          ⟨context.source, start.start, max block.span.stop start.start⟩⟩) :
    Attests context tokens state (ending ((do
      let body ← calibrationBody
      let span ← spanFrom start
      requireVersion3 span feature
      place (kind body) span) context state)) := by
  have hR := plain_attests context tokens
  refine Stays.bindAt hR (attests_of_plain calibrationBody_composed) fun body middle hbody => ?_
  obtain ⟨block, hexpect, rfl⟩ : ∃ block, expect .calibrationBody context state = .ok block middle ∧
      String.ofList (block.text.drop 1).dropLast = body := by
    unfold calibrationBody at hbody
    cases hexpect : expect .calibrationBody context state with
    | ok block after =>
      rw [bind_of_ok hexpect] at hbody
      obtain ⟨rfl, rfl⟩ := EStateM.Result.ok.inj hbody
      exact ⟨block, rfl, rfl⟩
    | error failure after =>
      rw [bind_of_error hexpect] at hbody
      cases hbody
  obtain ⟨after, hrest, hkind, rfl⟩ := expect_ok_iff.1 hexpect
  have hend : (State.pass 1 state).previousEnd = block.span.stop := by
    rw [State.pass, hrest]
    rfl
  have hattested := hn block after hrest hkind
  rw [← hend] at hattested
  exact Stays.bind hR (.bind hR (.get hR) fun _ => .ite (.report hR) (.pure hR))
    (fun _ => place_attests hattested) _

/-- A calibration block is attested by its tokens. -/
theorem cal_attests : Stays context (Attests context tokens) cal := by
  have hR := plain_attests context tokens
  intro state hwitnessed
  refine Stays.bindAt hR (attests_of_plain .expect) (fun keyword middle hexpect => ?_) hwitnessed
  obtain ⟨rest, hrest, hkind, rfl⟩ := expect_ok_iff.1 hexpect
  obtain ⟨before, htokens⟩ := hwitnessed.rest
  refine bodyTail_attests fun block after hblock hbody => ?_
  rw [rest_pass hrest] at hblock
  exact .cal (by rw [← htokens, hrest, hblock]) hkind hbody

/-- So is the definition of a calibration. -/
theorem defcal_attests : Stays context (Attests context tokens) defcal := by
  have hR := plain_attests context tokens
  intro state hwitnessed
  refine Stays.bindAt hR (attests_of_plain .expect) (fun keyword middle hexpect => ?_) hwitnessed
  obtain ⟨rest, hrest, hkind, rfl⟩ := expect_ok_iff.1 hexpect
  obtain ⟨before, htokens⟩ := hwitnessed.rest
  rw [bind_of_ok (current_eq context _), rest_pass hrest]
  cases rest with
  | nil => exact attests_of_plain .unexpected _
  | cons first rest =>
    dsimp only [List.head?_cons]
    split
    · exact Stays.bindAt hR (attests_of_plain .unexpected) fun _ _ hok =>
        absurd hok unexpected_ne_ok
    · next hfirst =>
      let ahead : Token → Bool := fun token => !endsSignature token.kind
      have hahead : ahead first = true := by simpa [ahead] using hfirst
      have hnamed : (State.pass 1 state).rest.takeWhile ahead = first :: rest.takeWhile ahead := by
        rw [rest_pass hrest, List.takeWhile_cons_of_pos hahead]
      have hsplit : (State.pass 1 state).rest =
          (first :: rest.takeWhile ahead) ++ rest.dropWhile ahead := by
        rw [rest_pass hrest, List.cons_append, List.takeWhile_append_dropWhile]
      have hpass := pass_append (State.pass 1 state) _ _ hsplit
      rw [get_bind, hnamed]
      refine hR.trans (fun h => h.pass _) (bodyTail_attests fun block after hblock hbody => ?_)
      rw [hpass] at hblock ⊢
      have htoken : tokens = before ++ keyword ::
          (first :: rest.takeWhile ahead ++ block :: after) := by
        rw [← htokens, hrest, ← hblock, List.cons_append, List.takeWhile_append_dropWhile]
      refine .defcal htoken hkind hbody fun token hm => ?_
      rw [← List.takeWhile_cons_of_pos hahead] at hm
      have hnot := List.all_eq_true.1 List.all_takeWhile token hm
      simpa [ahead] using hnot

/-! ## Levels -/

/-- All that a statement places is attested. -/
theorem statement_attests {inner : Level}
    (h : ∀ production, Stays context (Attests context tokens) (inner production)) :
    Stays context (Attests context tokens) (statement inner) := by
  obtain ⟨statementAt, heq, hc⟩ := exists_statementAt
  intro state
  by_cases hcal : state.rest.head?.map Token.kind = some Keyword.kwCal
  · obtain ⟨token, rest, hr, hk⟩ := exists_of_peek hcal
    rw [statement_of_keyword hr hk]
    exact cal_attests state
  by_cases hdefcal : state.rest.head?.map Token.kind = some Keyword.kwDefcal
  · obtain ⟨token, rest, hr, hk⟩ := exists_of_peek hdefcal
    rw [statement_of_keyword hr hk]
    exact defcal_attests state
  -- Behind any other token, no calibration is placed.
  have hcomposed : Composed (· ≠ .calibration) (statementAt state.rest.head?) := by
    refine hc _ _ nofun (fun _ => nofun) (fun keyword hm hk => ?_) fun _ _ _ => nofun
    simp only [calibrationKeywords, List.mem_cons, List.not_mem_nil, or_false] at hm
    rcases hm with rfl | rfl
    · exact absurd hk hcal
    · exact absurd hk hdefcal
  have hR : Stable (· ≠ .calibration) (Attests context tokens) :=
    stable_attests (fun hne => hne rfl) context tokens
  rw [heq, bind_of_ok (current_eq context state)]
  exact hcomposed.stays hR (fun production _ => h production) (.blockOpen hR (h .blockItems)) state

/-- The productions of every level keep what is attested. -/
theorem level_attests (levels : Nat) (production : Production) :
    Stays context (Attests context tokens) (level levels production) := by
  have hR := plain_attests context tokens
  induction levels generalizing production with
  | zero => exact .throw hR
  | succ levels ih =>
    refine .nested hR ?_
    by_cases hr : Readable (· = .tracked) production
    · have hc : Composed (· = .tracked) production.parse := parse_composed_of_readable hr rfl
      exact hc.stays hR (fun other _ => ih other) (.blockOpen hR (ih .blockItems))
    · have hstatement := statement_attests ih
      cases production with
      | statement => exact hstatement
      | blockItems =>
        have hitem := statementOrError_stays hR hstatement
        exact .inScope hR (.iterate hR (blockRound_stays hR hitem) [])
      | _ => exact absurd trivial hr

/-- All that a program places is attested. -/
theorem program_attests : Stays context (Attests context tokens) program := by
  have hR := plain_attests context tokens
  refine .bind hR (.read hR) fun reading => .bind hR ?_ fun items => ?_
  · have hlevel : ∀ production, Stays context (Attests context tokens)
        (level (reading.options.maxDepth + 1) production) := level_attests _
    have hitem := statementOrError_stays hR (statement_attests hlevel)
    exact .iterate hR (programRound_stays hR hitem) []
  · exact place_attests (.other nofun nofun)

/-- The nodes of a parse are attested by its tokens. -/
theorem parse_attests {source : SourceId} {text : List Char} {options : ParseOptions}
    {output : ParseOutput} (h : parse source text options = .ok output) :
    ∀ node ∈ output.tree.nodes, Attested ⟨source, text, options⟩
      ((tokenize source text).1.filter (!·.kind.isTrivia)) node := by
  obtain ⟨root, state, hprogram, hnodes, -, -⟩ := exists_of_parse_ok h
  let context : Context := ⟨source, text, options⟩
  have hattests : Stays context (Attests context (startState source text options).rest) program :=
    program_attests
  have hwitnessed := hattests (startState source text options)
    ⟨List.suffix_refl _, fun _ hm => nomatch hm⟩
  rw [hprogram] at hwitnessed
  rw [hnodes]
  exact hwitnessed.nodes

end

/-! ## Texts -/

/-- What stands between the keyword of a calibration definition and its body: the signature, with
comments around it and blanks behind it. The target is its first token. -/
inductive Signed (source : SourceId) (start : Nat) :
    List Token → List Char → List Char → List Char → Prop
  | intro {lead more trail : List Token} {first : Token} {gap signature blanks rest : List Char} :
      Tiled source start gap lead →
      Tiled source (start + Text.width gap) (signature ++ blanks) (first :: more) →
      Tiled source (start + Text.width gap + Text.width (signature ++ blanks)) rest trail →
      (∀ token ∈ lead ++ trail, token.kind.isTrivia) →
      Text.trim (signature ++ blanks) = signature → (∀ c ∈ blanks, Text.isBlank c) →
      first.text <+: signature ∨ more = [] ∧ signature = Text.trimEnd first.text →
      Signed source start (lead ++ (first :: more ++ trail)) (gap ++ (signature ++ blanks ++ rest))
        first.text signature

section
variable {source : SourceId} {text : List Char} {offset : Nat} {first : Token}
  {tokens more rest before after : List Token}

/-- A token that is kept stands between what is kept before it and behind it. -/
theorem exists_of_filter_eq {p : Token → Bool} (h : tokens.filter p = before ++ first :: rest) :
    ∃ front back, tokens = front ++ first :: back ∧ back.filter p = rest := by
  obtain ⟨front, later, rfl, -, hlater⟩ := List.filter_eq_append_iff.1 h
  obtain ⟨gap, back, rfl, -, -, hback⟩ := List.filter_eq_cons_iff.1 hlater
  exact ⟨front ++ gap, back, by simp, hback⟩

/-- Tokens that are kept in a row stand in the list with others between them, and end where they
ended. -/
theorem exists_stretch {p : Token → Bool} (h : tokens.filter p = first :: (more ++ rest)) :
    ∃ lead tail back, tokens = lead ++ first :: (tail ++ back) ∧ (∀ token ∈ lead, p token = false) ∧
      tail.filter p = more ∧ back.filter p = rest ∧
      ∀ offset, endAfter offset (first :: tail) = endAfter offset (first :: more) := by
  induction more generalizing tokens first with
  | nil =>
    obtain ⟨lead, back, rfl, hlead, -, hback⟩ := List.filter_eq_cons_iff.1 h
    exact ⟨lead, [], back, rfl, fun token hm => Bool.eq_false_iff.2 (hlead token hm), rfl, hback,
      fun _ => rfl⟩
  | cons next more ih =>
    obtain ⟨lead, later, rfl, hlead, -, hlater⟩ := List.filter_eq_cons_iff.1 h
    obtain ⟨gap, tail, back, rfl, hgap, htail, hback, hend⟩ := ih hlater
    refine ⟨lead, gap ++ next :: tail, back, by simp, fun token hm =>
      Bool.eq_false_iff.2 (hlead token hm), ?_, hback, fun offset => ?_⟩
    · have hmem : next ∈ (gap ++ next :: (tail ++ back)).filter p :=
        hlater.symm ▸ List.mem_append_left _ List.mem_cons_self
      have hnext : p next = true := (List.mem_filter.1 hmem).2
      have hnone : gap.filter p = [] :=
        List.filter_eq_nil_iff.2 fun token hm => Bool.eq_false_iff.1 (hgap token hm)
      rw [List.filter_append, hnone, List.nil_append, List.filter_cons_of_pos hnext, htail]
    · rw [← List.cons_append, endAfter_append]
      exact hend _

/-- What stands between a keyword and a body is signed by the tokens that are no comments. -/
theorem signed_of_quoted {span : Span} {keyword : Keyword} {lead tail trail : List Token}
    {between body : List Char} (he : ∀ token ∈ (tokenize source text).1, token.kind ≠ .error)
    (hq : Quoted source text span keyword (lead ++ (first :: tail ++ trail)) between body)
    (ht : ∀ token ∈ lead ++ trail, token.kind.isTrivia) :
    ∃ written, Text.slice? text first.span.start (endAfter offset (first :: tail)) = some written ∧
      Signed source (span.start + Text.width keyword.text.toList) (lead ++ (first :: tail ++ trail))
        between first.text (Text.trim written) := by
  have hblank : ∀ token ∈ first :: tail, ∀ c ∈ token.text.head?, Text.isBlank c = false :=
    fun token hm => not_isBlank_of_mem he (hq.tokens.subset
      (List.mem_append_right _ (List.mem_append_left _ hm)))
  obtain ⟨pre, post, htext, hpre, -⟩ := Text.slice?_eq_some_iff.1 hq.slice
  obtain ⟨gap, rest, rfl, hgap, hne, hspan, hrest⟩ := Tiled.split hq.tiled
  obtain ⟨head, rest, rfl, hhead, hstop, hback, hnil, hcons⟩ := Tiled.cut hrest
  have hstart : ∀ c ∈ (first.text ++ head).head?, Text.isBlank c = false := by
    rw [List.head?_append_of_ne_nil _ hne]
    exact hblank first List.mem_cons_self
  obtain ⟨blanks, hblanks, hall⟩ := Text.exists_trimEnd (first.text ++ head)
  have htrim : Text.trim (first.text ++ head) = Text.trimEnd (first.text ++ head) := by
    rw [Text.trim, Text.trimStart_of_head hstart]
  refine ⟨first.text ++ head, ?_, ?_⟩
  · refine Text.slice?_eq_some_iff.2
      ⟨pre ++ (keyword.text.toList ++ gap), rest ++ '{' :: (body ++ ['}']) ++ post, ?_, ?_, ?_⟩
    · rw [htext]
      simp
    · simp [hspan, hpre, Nat.add_assoc]
    · rw [endAfter, List.foldl_cons, hspan, hstop, Text.width_append, Nat.add_assoc]
  · have hbegins : first.text <+: Text.trimEnd (first.text ++ head) ∨
        tail = [] ∧ Text.trimEnd (first.text ++ head) = Text.trimEnd first.text := by
      cases htail : tail with
      | nil => exact .inr ⟨rfl, by rw [hnil htail, List.append_nil]⟩
      | cons next more =>
        obtain ⟨blanks, behind, rfl, hnext⟩ := hcons next more htail
        obtain ⟨c, text, hc⟩ := List.exists_cons_of_ne_nil hnext
        have hblankc := hblank next (htail ▸ List.mem_cons_of_mem _ List.mem_cons_self) c
          (by rw [hc]; rfl)
        refine .inl ⟨blanks ++ c :: Text.trimEnd (text ++ behind), ?_⟩
        have hend := Text.trimEnd_append_cons hblankc (first.text ++ blanks) (text ++ behind)
        rw [hc, List.cons_append]
        simpa using hend.symm
    have hwritten : Tiled source (span.start + Text.width keyword.text.toList + Text.width gap)
        (first.text ++ head) (first :: tail) :=
      @Tiled.token _ _ [] _ _ _ (List.forall_mem_nil _) hne hspan hhead
    have hrest : Tiled source (span.start + Text.width keyword.text.toList + Text.width gap +
        Text.width (first.text ++ head)) rest trail := by
      rw [Text.width_append, ← Nat.add_assoc]
      exact hback
    rw [htrim, ← List.append_assoc first.text]
    generalize Text.trimEnd (first.text ++ head) = signature at hblanks hbegins htrim ⊢
    rw [hblanks] at hwritten hrest htrim ⊢
    exact .intro hgap hwritten hrest ht htrim hall hbegins

/-! ## Trees -/

/-- Where no error is reported, no token is one. -/
theorem ne_error_of_hasErrors {options : ParseOptions} {output : ParseOutput}
    (h : parse source text options = .ok output) (hf : output.hasErrors = false) :
    ∀ token ∈ (tokenize source text).1, token.kind ≠ .error := by
  obtain ⟨root, state, hprogram, -, -, hreports⟩ := exists_of_parse_ok h
  have hplain : ∀ diagnostic ∈ output.diagnostics, ¬diagnostic.code.isError := by
    intro diagnostic hd he
    have hd' : diagnostic ∈ (⟨(tokenize source text).2 ++ state.diagnostics.items⟩ :
        Diagnostics).items := Diagnostics.mem_of_mem_sorted (hreports ▸ hd)
    have hnot := List.any_eq_false.1 hf diagnostic hd
    rw [Diagnostic.isError, severity_of_report hprogram hd',
      show diagnostic.code.severity = .error from he] at hnot
    exact hnot rfl
  intro token hm hk
  have hspan : token.span ∈ (tokenize source text).2.map Diagnostic.span := by
    rw [(tokenize_faults source text).1]
    exact List.mem_map_of_mem (List.mem_filter.2 ⟨hm, by simpa using hk⟩)
  obtain ⟨diagnostic, hd, -⟩ := List.mem_map.1 hspan
  refine (unalarmed_of_shown hreports hplain).1 diagnostic hd ?_
  rw [((tokenize_faults source text).2 diagnostic hd).1]
  rfl

/-- The calibrations of a parse without errors are quoted from the text: the keyword, comments at
most before the body of a calibration and the signature before that of a definition, and the body.
The first brace is that of the body, unless a brace is closed before it. -/
theorem parse_quotes {options : ParseOptions} {output : ParseOutput}
    (hw : Text.width text ≤ maxOffset) (h : parse source text options = .ok output)
    (hf : output.hasErrors = false) :
    ∀ node ∈ output.tree.nodes,
      (∀ body, node.kind = .cal body → ∃ inside between,
        Quoted source text node.span .kwCal inside between body.toList ∧
        ∀ token ∈ inside, token.kind.isTrivia) ∧
      ∀ target signature body, node.kind = .defcal target signature body → ∃ inside between,
        Quoted source text node.span .kwDefcal inside between body.toList ∧
        Signed source (node.span.start + Text.width Keyword.kwDefcal.text.toList) inside between
          target.toList signature.toList := by
  intro node hm
  have he := ne_error_of_hasErrors h hf
  have hplain : ∀ token : Token, token.kind.isTrivia →
      token.kind ≠ .calibrationBody ∧ token.kind ≠ Symbol.semicolon := by
    intro token ht
    constructor <;> (intro hk; rw [hk] at ht; cases ht)
  cases parse_attests h node hm with
  | other hcal hdefcal =>
    exact ⟨fun body hk => absurd hk (hcal body), fun _ _ _ hk => absurd hk (hdefcal _ _ _)⟩
  | @cal before after keyword block htokens hk hb =>
    refine ⟨fun body hbody => ?_, nofun⟩
    obtain rfl := NodeKind.cal.inj hbody
    obtain ⟨front, later, hfront, hlater⟩ := exists_of_filter_eq htokens
    obtain ⟨lead, back, rfl, hlead, -, -⟩ := List.filter_eq_cons_iff.1 hlater
    have htrivia : ∀ token ∈ lead, token.kind.isTrivia :=
      fun token hm => by simpa using hlead token hm
    obtain ⟨hle, between, hquoted⟩ := quoted_of_tokens hw he hfront hk (.inl rfl) hb
      fun token hm => hplain token (htrivia token hm)
    rw [String.toList_ofList, Nat.max_eq_left hle]
    exact ⟨lead, between, hquoted, htrivia⟩
  | @defcal before more after keyword first block htokens hk hb hends =>
    refine ⟨nofun, fun target signature body hbody => ?_⟩
    obtain ⟨rfl, rfl, rfl⟩ := NodeKind.defcal.inj hbody
    obtain ⟨front, later, hfront, hlater⟩ := exists_of_filter_eq htokens
    obtain ⟨lead, tail, rest, rfl, hlead, htail, hrest, hstop⟩ := exists_stretch hlater
    obtain ⟨trail, back, rfl, htrail, -, -⟩ := List.filter_eq_cons_iff.1 hrest
    have htrivia : ∀ token ∈ lead ++ trail, token.kind.isTrivia := by
      intro token hm
      rcases List.mem_append.1 hm with hm | hm
      · simpa using hlead token hm
      · simpa using htrail token hm
    have hinside : ∀ token ∈ lead ++ (first :: tail ++ trail),
        token.kind ≠ .calibrationBody ∧ token.kind ≠ Symbol.semicolon := by
      intro token hm
      by_cases ht : token.kind.isTrivia
      · exact hplain token ht
      have hnamed : token ∈ first :: more := by
        rw [← htail]
        simp only [List.mem_append, List.mem_cons] at hm htrivia
        rcases hm with hm | (rfl | hm) | hm
        · exact absurd (htrivia token (.inl hm)) ht
        · exact List.mem_cons_self
        · exact List.mem_cons_of_mem _ (List.mem_filter.2 ⟨hm, by simpa using ht⟩)
        · exact absurd (htrivia token (.inr hm)) ht
      simpa [endsSignature] using hends token hnamed
    have hsplit : (tokenize source text).1 =
        front ++ keyword :: (lead ++ (first :: tail ++ trail) ++ block :: back) := by
      rw [hfront]
      simp
    obtain ⟨hle, between, hquoted⟩ := quoted_of_tokens hw he hsplit hk (.inr rfl) hb hinside
    obtain ⟨written, hslice, hsigned⟩ :=
      @signed_of_quoted _ _ keyword.span.stop _ _ _ _ _ _ _ _ he hquoted htrivia
    simp only [String.toList_ofList, Nat.max_eq_left hle, ← hstop, hslice, Option.getD_some]
    exact ⟨_, between, hquoted, hsigned⟩

end

/-- The target, the signature and the body of a calibration definition. -/
def definition? : NodeKind NodeId → Option (String × String × String)
  | .defcal target signature body => some (target, signature, body)
  | _ => none

/-- Only the node of a definition is one. -/
theorem definition?_eq_some_iff {kind : NodeKind NodeId} {target signature body : String} :
    definition? kind = some (target, signature, body) ↔ kind = .defcal target signature body := by
  cases kind <;> simp [definition?]

/-- The first node of a parse that is known to be a calibration definition. -/
theorem exists_of_definition? {text : List Char} {span : Span} {target signature body : String}
    (he : (parse ⟨0⟩ text {}).toOption.map ParseOutput.hasErrors = some false)
    (hn : (parse ⟨0⟩ text {}).toOption.bind (fun output => output.tree.nodes[0]?.map fun node =>
      (node.span, definition? node.kind)) = some (span, some (target, signature, body))) :
    ∃ output, parse ⟨0⟩ text {} = .ok output ∧ output.hasErrors = false ∧
      ⟨.defcal target signature body, span⟩ ∈ output.tree.nodes := by
  cases hparse : parse ⟨0⟩ text {} with
  | error failure =>
    rw [hparse] at he
    cases he
  | ok output =>
    rw [hparse] at he hn
    obtain ⟨⟨kind, span⟩, hnode, heq⟩ := Option.map_eq_some_iff.1 hn
    obtain ⟨rfl, hkind⟩ := Prod.mk.inj heq
    obtain rfl := definition?_eq_some_iff.1 hkind
    exact ⟨output, rfl, Option.some.inj he, Array.mem_of_getElem? hnode⟩

/-- A comment within the signature is quoted with it, and the body has its own braces. -/
theorem parse_quotes_comment : ∃ text output inside between,
    text = "defcal x /**/ $0 \x7b [\x7b\x7d] \x7d".toList ∧ Text.width text ≤ maxOffset ∧
      parse ⟨0⟩ text {} = .ok output ∧ output.hasErrors = false ∧
      Quoted ⟨0⟩ text ⟨⟨0⟩, 0, 25⟩ .kwDefcal inside between " [\x7b\x7d] ".toList ∧
      Signed ⟨0⟩ (0 + Text.width Keyword.kwDefcal.text.toList) inside between
        "x".toList "x /**/ $0".toList := by
  let text := "defcal x /**/ $0 \x7b [\x7b\x7d] \x7d".toList
  have hwidth : Text.width text ≤ maxOffset := by decide +kernel
  obtain ⟨output, hparse, herrors, hm⟩ : ∃ output, parse ⟨0⟩ text {} = .ok output ∧
      output.hasErrors = false ∧ ⟨.defcal "x" "x /**/ $0" " [\x7b\x7d] ", ⟨⟨0⟩, 0, 25⟩⟩ ∈
        output.tree.nodes := exists_of_definition? (by decide +kernel) (by decide +kernel)
  obtain ⟨inside, between, hquoted, hsigned⟩ :=
    (parse_quotes hwidth hparse herrors _ hm).2 _ _ _ rfl
  exact ⟨text, output, inside, between, rfl, hwidth, hparse, herrors, hquoted, hsigned⟩

/-- A brace that is closed within the signature of a definition goes without a report. -/
theorem not_braceless_signature :
    ¬∀ source text options output, parse source text options = .ok output →
      output.hasErrors = false → ∀ node ∈ output.tree.nodes,
      ∀ target signature body, node.kind = .defcal target signature body →
      ∀ token ∈ (tokenize source text).1, node.span.start ≤ token.span.start →
        token.span.stop ≤ node.span.stop →
        token.kind ≠ Symbol.leftBrace ∧ token.kind ≠ Symbol.rightBrace := by
  intro hall
  let text := "defcal x \x7d cal \x7b y \x7d".toList
  obtain ⟨output, hparse, herrors, hm⟩ : ∃ output, parse ⟨0⟩ text {} = .ok output ∧
      output.hasErrors = false ∧ ⟨.defcal "x" "x \x7d cal" " y ", ⟨⟨0⟩, 0, 20⟩⟩ ∈
        output.tree.nodes := exists_of_definition? (by decide +kernel) (by decide +kernel)
  have hbrace : (⟨Symbol.rightBrace, ['\x7d'], ⟨⟨0⟩, 9, 10⟩⟩ : Token) ∈ (tokenize ⟨0⟩ text).1 := by
    decide +kernel
  have hnone := hall ⟨0⟩ text {} output hparse herrors _ hm _ _ _ rfl _ hbrace
  exact (hnone (by decide) (by decide)).2 rfl

end OpenQasm.Grammar
