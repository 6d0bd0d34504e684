import OpenQasm.Proofs.Diagnostic.Filtering
import OpenQasm.Proofs.Grammar.Journal
import OpenQasm.Proofs.Grammar.Kinds

/-!
# Notices

If a parse recovers from nothing, what it reports about names and about a version can be read off
its tree: a walk over the scopes finds every name that is declared again, and each node that a
version lacks or has left behind is reported once.
-/

namespace OpenQasm

/-- The codes of the failures that are recovered from. -/
def Code.isFailure (code : Code) : Prop :=
  code = .lexicalError ∨ code = .syntaxError ∨ code = .maxDepthExceeded

instance : Code.Telling Code.isFailure := ⟨.inl rfl, .inr (.inl rfl), .inr (.inr rfl)⟩

/-- The version that a tree states at its start. -/
def Tree.stated? (tree : Tree) : Option Version :=
  tree.items.head?.bind fun item => (tree.kind? item).bind Grammar.statedBy?

theorem Tree.stated?_eq {tree : Tree} {placed : List Grammar.Placed}
    (h : tree.items.map tree.node? = placed.map fun item => some ⟨item.kind, item.span⟩) :
    tree.stated? = placed.head?.bind fun item => Grammar.statedBy? item.kind := by
  rw [stated?]
  cases hitems : tree.items with
  | nil =>
    rw [hitems, List.map_nil, eq_comm, List.map_eq_nil_iff] at h
    rw [h]
    rfl
  | cons first rest =>
    cases placed with
    | nil => rw [hitems] at h; cases h
    | cons item placed =>
      rw [hitems, List.map_cons, List.map_cons] at h
      rw [List.head?_cons, List.head?_cons, Option.bind_some, Option.bind_some, kind?,
        (List.cons.inj h).1, Option.map_some, Option.bind_some]

/-- The parameters of all subroutines. -/
def Tree.parameters (tree : Tree) : List NodeId :=
  tree.descendants.flatMap fun id => (tree.kind? id).elim [] NodeKind.parameters

/-- Each of some reports is about one of some nodes and lies within it, and each node has one. -/
def Tree.Answers (tree : Tree) (reports : List Diagnostic) (nodes : List NodeId) : Prop :=
  ∃ pairs : List (Diagnostic × NodeId), (pairs.map Prod.fst).Perm reports ∧
    (pairs.map Prod.snd).Perm nodes ∧ ∀ pair ∈ pairs, tree.Encloses pair.2 pair.1.span

/-- What a parse shows of one code answers some nodes. Two of the reports may say the same, and are
shown as one, only if the text is too long for its offsets. -/
structure ParseOutput.Answers (output : ParseOutput) (text : List Char) (code : Code)
    (nodes : List NodeId) : Prop where
  given : ∃ reports, output.tree.Answers reports nodes ∧
    output.diagnostics.filter (·.code == code) = Diagnostics.sorted ⟨reports⟩
  shown : Text.width text < 2 ^ 32 →
    output.tree.Answers (output.diagnostics.filter (·.code == code)) nodes

namespace Grammar

/-- The notices given in a parse are those that its tree calls for in a version. -/
structure Noted (tree : Tree) (version : Option Version) (text : List Char) (state : State) :
    Prop where
  scopes : state.scopes = [(tree.items.filterMap (Program.declared? tree)).foldl Scope.enter []]
  duplicates : (state.diagnostics.items.filter (·.code == .duplicateDeclaration)).Perm
    tree.redeclarations
  codes : ∀ diagnostic ∈ state.diagnostics.items, diagnostic.code.isOfVersion →
    diagnostic.code = .ofVersion version
  features : ∃ pairs : List (Diagnostic × NodeId),
    (state.diagnostics.items.filter (·.code.isOfVersion)).Perm (pairs.map Prod.fst) ∧
    (tree.descendants.filter (tree.isNoted version)).Perm
      (pairs.map Prod.snd ++ tree.descendants.flatMap (tree.notedParameters version)) ∧
    ∀ pair ∈ pairs, tree.Encloses pair.2 pair.1.span
  apart : Text.width text ≤ maxOffset →
    ((state.diagnostics.items.filter (·.code.isNoted)).map (·.span.start)).Nodup

section
variable {source : SourceId} {text : List Char} {options : ParseOptions} {output : ParseOutput}
  {tree : Tree} {root : Placed} {state : State}

/-- Tokens of a text that is not too long take up some text each. -/
theorem solid_ofText (h : Text.width text ≤ maxOffset) :
    (Reading.ofText source text options).Solid := fun token hm =>
  ((tokenize_separate source text h).span token (List.filter_sublist.subset hm)).2

/-- The nodes of a tree are those pushed before its root, and the root. -/
theorem descendants_perm_pushed (hjoined : tree.Joined) {builder : Builder} {before after : State}
    {id : NodeId} {kind : NodeKind NodeId} {span : Span}
    (hpush : after.builder.push kind span = .ok (id, builder)) (hnodes : tree.nodes = builder.nodes)
    (hstart : before.builder.size = 0) :
    tree.descendants.Perm (pushed before after ++ [id]) := by
  have hids : pushed before after ++ [id] = idsFrom 0 tree.size := by
    rw [Tree.size, hnodes, Builder.nodes_of_push hpush, Array.size_push, idsFrom_add,
      pushed, hstart, Builder.id_of_push hpush, idsFrom_one]
    simp [Builder.size]
  rw [hids]
  refine List.perm_iff_count.2 fun id => ?_
  rw [hjoined.descendants.1.count, count_idsFrom]
  exact if_congr (by simpa using hjoined.descendants.2 id) rfl rfl

/-- A program that is read without recovery has a node over its statements. -/
theorem exists_of_strictProgram_ok {context : Context} {start : State}
    (h : strictProgram context start = .ok root state) :
    ∃ items last id builder span,
      strictItems (statement (levelWith strictReader (context.options.maxDepth + 1)))
        context start = .ok items last ∧
      last.builder.push (.program (items.map Placed.id)) span = .ok (id, builder) ∧
      root = ⟨id, .program (items.map Placed.id), span⟩ ∧ state = { last with builder } := by
  unfold strictProgram at h
  rw [read_bind] at h
  cases hitems : strictItems (statement (levelWith strictReader (context.options.maxDepth + 1)))
      context start with
  | error failure last =>
    rw [bind_of_error hitems] at h
    cases h
  | ok items last =>
    rw [bind_of_ok hitems] at h
    obtain ⟨id, builder, hpush, hroot, hstate⟩ := exists_of_place_ok h
    exact ⟨items, last, id, builder, _, rfl, hpush, hroot, hstate⟩

/-- A program that is read without recovery is noted. -/
theorem noted_of_strict
    (hstrict : strictProgram ⟨source, text, options⟩ (startState source text options) =
      .ok root state)
    (hnodes : tree.nodes = state.builder.nodes) (hroot : tree.root = root.id)
    (hjoined : tree.Joined) :
    Noted tree (startState source text options).versionAhead text state := by
  let reading := Reading.ofText source text options
  let start := startState source text options
  let levels := options.maxDepth + 1
  obtain ⟨items, last, id, builder, span, hitems, hpush, rfl, rfl⟩ :=
    exists_of_strictProgram_ok hstrict
  have hjournal : reading.Journal tree levels start items last :=
    Reading.strictItems_journal (fun hfair => hfair)
      (Reading.ready_startState source text options) rfl _ _ hitems
  have hi : Into tree last := by
    rw [Into, hnodes, ← Builder.masked, Builder.masked_of_push hpush]
    exact List.prefix_append _ _
  have ha := hjournal.accounts hi
  have hperm := descendants_perm_pushed hjoined hpush hnodes (show start.builder.size = 0 from rfl)
  have hadded : added start last = last.diagnostics.items := List.drop_zero
  have hkind : tree.kind? id = some (.program (items.map Placed.id)) := by
    rw [Tree.kind?, Tree.node?, hnodes, Builder.nodes_of_push hpush, Builder.id_of_push hpush,
      Array.getElem?_push_size]
    rfl
  have htree : tree.items = items.map Placed.id := by rw [Tree.items, hroot, hkind]
  have hnames : (Reading.entries tree items).names =
      tree.items.filterMap (Program.declared? tree) := by rw [htree, Reading.entries]
  refine
    { scopes := ?_
      duplicates := ?_
      codes := fun diagnostic hm => ha.codes diagnostic (hadded ▸ hm)
      features := ?_
      apart := fun hle => ?_ }
  · rw [← hnames]
    exact ha.scopes
  · have hroot : tree.redeclarationsAt id =
        redeclarations [] (Reading.entries tree items).names := by
      rw [Tree.redeclarationsAt, hkind, hnames, htree]
      exact List.flatMap_singleton ..
    have hconflicts : start.conflicts (Reading.entries tree items).names =
        redeclarations [] (Reading.entries tree items).names := Scope.conflicts_eq (fun _ => rfl) _
    have hduplicates := ha.duplicates
    rw [hadded, hconflicts, ← hroot] at hduplicates
    refine hduplicates.trans (.trans ?_ (hperm.flatMap_right _).symm)
    rw [List.flatMap_append, List.flatMap_singleton]
    show (tree.redeclarationsAt id ++ [] ++ _).Perm _
    rw [List.append_nil]
    exact List.perm_append_comm
  · obtain ⟨pairs, hreports, hfeatures, hwithin⟩ := ha.features
    rw [hadded] at hreports
    have hnoted : tree.isNoted start.versionAhead id = false := by
      rw [Tree.isNoted, hkind, Option.any_some, NodeKind.isNoted]
      exact ite_self _
    have hparams : tree.notedParameters start.versionAhead id = [] := by
      rw [Tree.notedParameters, hkind]
      rfl
    refine ⟨pairs, hreports.trans (.of_eq (List.append_nil _)), ?_, hwithin⟩
    refine (hperm.filter _).trans (.trans ?_ ((hperm.flatMap_right _).symm.append_left _))
    rw [List.filter_append, List.filter_singleton, hnoted, List.flatMap_append,
      List.flatMap_singleton, hparams, cond_false, List.append_nil, List.append_nil]
    exact hfeatures.trans (.of_eq (List.append_nil _))
  · have hstarts := (ha.apart (solid_ofText hle)).1
    rw [hadded] at hstarts
    simpa [Reading.starts, Reading.entries] using hstarts

/-- A program that is read without recovery does not begin with a closing brace. -/
theorem head_of_strictItems {item : Parser Placed} {context : Context} {start last : State}
    {items : List Placed} (h : strictItems item context start = .ok items last) :
    start.rest.head?.map Token.kind ≠ some Symbol.rightBrace := by
  let reading := Reading.ofText context.source context.text context.options
  have hround : reading.WhenOk (strictItems item) start fun _ _ =>
      start.rest.head?.map Token.kind ≠ some Symbol.rightBrace := by
    refine Reading.WhenOk.iterate
      (fun _ state => state = start ∨ start.rest.head?.map Token.kind ≠ some Symbol.rightBrace)
      (fun items state h => ?_) (.inl rfl)
    refine Reading.WhenOk.look
      (show peek _ state = .ok (state.rest.head?.map Token.kind) state from rfl) ?_
    have hkeep (hne : state.rest.head?.map Token.kind ≠ some Symbol.rightBrace) :
        start.rest.head?.map Token.kind ≠ some Symbol.rightBrace := h.elim (fun heq => heq ▸ hne) id
    split
    · next hnone => exact .pure (hkeep (by simp [hnone]))
    · exact fun _ _ hok => nomatch hok
    · next kind hkind hsome =>
      have hne := hkeep fun heq => hkind (Option.some.inj (hsome.symm.trans heq))
      exact Reading.WhenOk.bind (p := fun _ _ => True) (fun _ _ _ => trivial)
        fun _ _ _ _ => .pure (.inr hne)
  exact hround items last h

/-- The version in force in a parse that recovers from nothing. -/
theorem versionAhead_eq (h : parse source text options = .ok output)
    (hstrict : strictProgram ⟨source, text, options⟩ (startState source text options) =
      .ok root state) :
    (startState source text options).versionAhead =
      output.tree.stated?.or options.defaultVersion := by
  obtain ⟨items, last, -, -, -, hitems, -⟩ := exists_of_strictProgram_ok hstrict
  rcases parse_portioned source text options with
    ⟨output', portions, end_, hparse, hportions, -, hnodes, -⟩ | ⟨_, herror, -⟩
  · obtain rfl := Except.ok.inj (hparse.symm.trans h)
    let reading := Reading.ofText source text options
    have htaken : Portioned (statementOrError (level (options.maxDepth + 1))) reading.context
      (startState source text options) portions end_ := hportions
    have hleading := htaken.leading (fun hfair => hfair)
      (.nil (Reading.ready_startState source text options) rfl)
    have hsame := (stated_eq_iff (startState source text options).rest).2 fun _ =>
      head_of_strictItems hitems
    rw [Tree.stated?_eq hnodes, hleading]
    exact congrArg (·.or options.defaultVersion) hsame
  · cases h.symm.trans herror

/-- A parse that shows no failure is noted. -/
theorem exists_noted (h : parse source text options = .ok output)
    (hf : ∀ diagnostic ∈ output.diagnostics, ¬diagnostic.code.isFailure) :
    ∃ root state,
      program ⟨source, text, options⟩ (startState source text options) = .ok root state ∧
      output.diagnostics = state.diagnostics.sorted ∧
      Noted output.tree (output.tree.stated?.or options.defaultVersion) text state := by
  obtain ⟨root, state, hprogram, hnodes, hroot, hreports⟩ := exists_of_parse_ok h
  have hsilent := unalarmed_of_shown hreports hf
  obtain ⟨-, hstrict⟩ := hsilent.strict hprogram
  have hlexical : (tokenize source text).2 = [] := by
    refine List.eq_nil_iff_forall_not_mem.2 fun diagnostic hd => hsilent.1 diagnostic hd ?_
    exact .inl ((tokenize_faults source text).2 diagnostic hd).1
  refine ⟨root, state, hprogram, ?_, ?_⟩
  · rw [hreports, hlexical, List.nil_append]
  · exact versionAhead_eq h hstrict ▸ noted_of_strict hstrict hnodes hroot (parse_joined h)

/-! ## What is shown -/

/-- What is shown of the notices of one code are these notices, and all of them if the text is not
too long. -/
theorem Noted.shown {version : Option Version} {code : Code} (h : Noted tree version text state)
    (hc : code.isNoted = true) :
    state.diagnostics.sorted.filter (·.code == code) =
      Diagnostics.sorted ⟨state.diagnostics.items.filter (·.code == code)⟩ ∧
    (Text.width text < 2 ^ 32 → (state.diagnostics.sorted.filter (·.code == code)).Perm
      (state.diagnostics.items.filter (·.code == code))) := by
  have hsorted : state.diagnostics.sorted.filter (·.code == code) =
      Diagnostics.sorted ⟨state.diagnostics.items.filter (·.code == code)⟩ :=
    Diagnostics.filter_sorted (fun identity => identity.1 == code) state.diagnostics
  refine ⟨hsorted, fun hlt => hsorted ▸ Diagnostics.sorted_perm ?_⟩
  have hsub : (state.diagnostics.items.filter (·.code == code)).Sublist
      (state.diagnostics.items.filter (·.code.isNoted)) := by
    refine List.monotone_filter_right _ fun diagnostic hd => ?_
    rwa [eq_of_beq hd]
  exact (h.apart (Nat.le_of_lt_succ hlt)).sublist (hsub.map _)

end

/-! ## Names -/

/-- What is reported about names in a parse that shows no failure is what a walk over the scopes of
its tree finds. The scope of the program has the names that its items declare. -/
theorem parse_redeclares (source : SourceId) (text : List Char) (options : ParseOptions) :
    (∃ output, parse source text options = .ok output ∧
      ((∀ diagnostic ∈ output.diagnostics, ¬diagnostic.code.isFailure) →
        ∃ root state reports,
          program ⟨source, text, options⟩ (startState source text options) = .ok root state ∧
          state.scopes =
            [(output.tree.items.filterMap (Program.declared? output.tree)).foldl Scope.enter []] ∧
          reports.Perm output.tree.redeclarations ∧
          output.diagnostics.filter (·.code == .duplicateDeclaration) =
            Diagnostics.sorted ⟨reports⟩ ∧
          (Text.width text < 2 ^ 32 →
            (output.diagnostics.filter (·.code == .duplicateDeclaration)).Perm
              output.tree.redeclarations))) ∨
    Crashes source text options := by
  refine (parse_completes source text options).imp_left ?_
  rintro ⟨-, -, output, -, hparse, -⟩
  refine ⟨output, hparse, fun hf => ?_⟩
  obtain ⟨root, state, hprogram, hreports, hnoted⟩ := exists_noted hparse hf
  obtain ⟨hsorted, hall⟩ := hnoted.shown (show Code.duplicateDeclaration.isNoted = true from rfl)
  refine ⟨root, state, _, hprogram, hnoted.scopes, hnoted.duplicates, hreports ▸ hsorted,
    fun hlt => ?_⟩
  rw [hreports]
  exact (hall hlt).trans hnoted.duplicates

/-! ## Versions -/

section
variable {text : List Char} {tree : Tree} {state : State} {version : Option Version}

/-- Version 2 is told from the others by its major number alone. -/
theorem isVersion2_iff {version : Option Version} :
    isVersion2 version = true ↔ ∃ inForce ∈ version, inForce.major = 2 := by
  cases version with
  | none => simp [isVersion2]
  | some inForce => simp [isVersion2]

theorem isOfVersion_ofVersion (version : Option Version) :
    (Code.ofVersion version).isOfVersion = true := by
  unfold Code.ofVersion
  split <;> rfl

/-- What is to be reported is what version 2 lacks, or what only version 2 has. -/
theorem isNoted_eq (tree : Tree) (version : Option Version) (id : NodeId) :
    tree.isNoted version id = if isVersion2 version then (tree.kind? id).any NodeKind.needsVersion3
      else (tree.kind? id).any NodeKind.isDeprecated := by
  rw [Tree.isNoted, show NodeKind.isNoted version = fun kind : NodeKind NodeId =>
    if isVersion2 version then kind.needsVersion3 else kind.isDeprecated from rfl]
  split <;> rfl

/-- The parameters of a subroutine take the places of parameters. -/
theorem mem_slots_of_parameter {kind : NodeKind NodeId} {id : NodeId} (h : id ∈ kind.parameters) :
    (Slot.parameter, id) ∈ kind.slots := by
  cases kind with
  | subroutineDef name params returns body =>
    have hparam : id ∈ params := h
    simp [NodeKind.slots, NodeKind.each, hparam]
  | _ => cases h

/-- No parameter is something that version 2 lacks. -/
theorem not_needsVersion3_of_parameter (h : tree.WellKinded) {id : NodeId}
    (hp : id ∈ tree.parameters) : (tree.kind? id).any NodeKind.needsVersion3 = false := by
  obtain ⟨other, -, hm⟩ := List.mem_flatMap.1 hp
  cases hn : tree.node? other with
  | none => rw [Tree.kind?, hn] at hm; cases hm
  | some node =>
    rw [Tree.kind?, hn] at hm
    obtain ⟨child, hchild, haccepts⟩ := h.fits other node hn _ (mem_slots_of_parameter hm)
    rw [Tree.kind?, hchild, Option.map_some, Option.any_some]
    dsimp only at haccepts
    cases hk : child.kind <;> first
      | rfl
      | (rw [hk] at haccepts; cases haccepts)

/-- The features reported in a version are the nodes that are not parameters. -/
theorem Noted.answers (h : Noted tree version text state) (hj : tree.Joined) :
    tree.Answers (state.diagnostics.items.filter (·.code == .ofVersion version))
      (tree.descendants.filter fun id => tree.isNoted version id && id ∉ tree.parameters) := by
  obtain ⟨pairs, hreports, hnodes, hwithin⟩ := h.features
  refine ⟨pairs, ?_, ?_, hwithin⟩
  · refine hreports.symm.trans (.of_eq (List.filter_congr fun diagnostic hd => ?_))
    rw [Bool.eq_iff_iff, beq_iff_eq]
    exact ⟨h.codes diagnostic hd, fun heq => heq ▸ isOfVersion_ofVersion version⟩
  · have hparams : tree.descendants.flatMap (tree.notedParameters version) =
        tree.parameters.filter (tree.isNoted version) := (List.filter_flatMap ..).symm
    rw [hparams] at hnodes
    have hdescendants := hj.descendants.1
    have hboth := hnodes.nodup_iff.1 (hdescendants.filter _)
    obtain ⟨hpairs, -, hapart⟩ := List.nodup_append.1 hboth
    refine (List.perm_ext_iff_of_nodup hpairs (hdescendants.filter _)).2 fun id => ?_
    have hmem := hnodes.mem_iff (a := id)
    simp only [List.mem_append, List.mem_filter] at hmem
    simp only [List.mem_filter, Bool.and_eq_true, decide_eq_true_eq]
    constructor
    · intro hm
      obtain ⟨hd, hnoted⟩ := hmem.2 (.inl hm)
      exact ⟨hd, hnoted, fun hp => hapart id hm id (List.mem_filter.2 ⟨hp, hnoted⟩) rfl⟩
    · rintro ⟨hd, hnoted, hp⟩
      exact (hmem.1 ⟨hd, hnoted⟩).resolve_right fun hm => hp hm.1

/-- What a parse shows that is noted. -/
theorem Noted.shows {output : ParseOutput} (h : Noted output.tree version text state)
    (hj : output.tree.Joined) (hreports : output.diagnostics = state.diagnostics.sorted) :
    output.Answers text (.ofVersion version) (output.tree.descendants.filter fun id =>
      output.tree.isNoted version id && id ∉ output.tree.parameters) ∧
    ∀ diagnostic ∈ output.diagnostics, diagnostic.code.isOfVersion →
      diagnostic.code = .ofVersion version := by
  have hnoted : (Code.ofVersion version).isNoted = true := by
    rw [Code.isNoted, isOfVersion_ofVersion, Bool.or_true]
  obtain ⟨hsorted, hall⟩ := h.shown hnoted
  rw [← hreports] at hsorted hall
  obtain ⟨pairs, hfirst, hsecond⟩ := h.answers hj
  refine ⟨⟨⟨_, ⟨pairs, hfirst, hsecond⟩, hsorted⟩, fun hlt => ?_⟩, fun diagnostic hd => ?_⟩
  · exact ⟨pairs, hfirst.trans (hall hlt).symm, hsecond⟩
  · exact h.codes diagnostic (Diagnostics.mem_of_mem_sorted (hreports ▸ hd))

end

/-- Where a version whose major number is 2 is in force, a parse that shows no failure reports each
node that this version lacks once, within the node, and warns of nothing. Where none is, the parse
warns once of each node that only version 2 has, but for the parameters of subroutines, and nothing
is lacking. -/
theorem parse_gates (source : SourceId) (text : List Char) (options : ParseOptions) :
    (∃ output, parse source text options = .ok output ∧
      ((∀ diagnostic ∈ output.diagnostics, ¬diagnostic.code.isFailure) →
        ((∃ version ∈ output.tree.stated?.or options.defaultVersion, version.major = 2) →
          output.Answers text .unsupportedFeature (output.tree.descendants.filter fun id =>
            (output.tree.kind? id).any NodeKind.needsVersion3) ∧
          ∀ diagnostic ∈ output.diagnostics, diagnostic.code ≠ .semanticWarning) ∧
        ((∀ version ∈ output.tree.stated?.or options.defaultVersion, version.major ≠ 2) →
          output.Answers text .semanticWarning (output.tree.descendants.filter fun id =>
            (output.tree.kind? id).any NodeKind.isDeprecated && id ∉ output.tree.parameters) ∧
          ∀ diagnostic ∈ output.diagnostics, diagnostic.code ≠ .unsupportedFeature))) ∨
    Crashes source text options := by
  refine (parse_completes source text options).imp_left ?_
  rintro ⟨-, -, output, -, hparse, -⟩
  refine ⟨output, hparse, fun hf => ?_⟩
  obtain ⟨-, state, -, hreports, hnoted⟩ := exists_noted hparse hf
  obtain ⟨hshown, hcodes⟩ := hnoted.shows (parse_joined hparse) hreports
  generalize output.tree.stated?.or options.defaultVersion = version at hshown hcodes
  have hother {code : Code} (hne : code ≠ .ofVersion version) (hc : code.isOfVersion = true) :
      ∀ diagnostic ∈ output.diagnostics, diagnostic.code ≠ code := fun diagnostic hd hcode =>
    hne (hcode ▸ hcodes diagnostic hd (hcode ▸ hc))
  simp only [isNoted_eq] at hshown
  constructor
  · intro h2
    have hv : isVersion2 version = true := isVersion2_iff.2 h2
    have hcode : Code.ofVersion version = .unsupportedFeature := if_pos hv
    refine ⟨?_, hother (by rw [hcode]; nofun) rfl⟩
    rw [hcode] at hshown
    simp only [hv, if_true] at hshown
    have hnodes : (output.tree.descendants.filter fun id =>
          (output.tree.kind? id).any NodeKind.needsVersion3 && id ∉ output.tree.parameters) =
        output.tree.descendants.filter fun id =>
          (output.tree.kind? id).any NodeKind.needsVersion3 := by
      refine List.filter_congr fun id _ => ?_
      cases hneeds : (output.tree.kind? id).any NodeKind.needsVersion3 with
      | false => rfl
      | true =>
        refine decide_eq_true fun hp => ?_
        rw [not_needsVersion3_of_parameter (parse_wellKinded hparse) hp] at hneeds
        cases hneeds
    rwa [hnodes] at hshown
  · intro hn2
    have hv : isVersion2 version = false := Bool.eq_false_iff.2 fun hv =>
      have ⟨inForce, hm, h2⟩ := isVersion2_iff.1 hv
      hn2 inForce hm h2
    have hcode : Code.ofVersion version = .semanticWarning := if_neg (by simp [hv])
    refine ⟨?_, hother (by rw [hcode]; nofun) rfl⟩
    rw [hcode] at hshown
    simpa only [hv, Bool.false_eq_true, if_false] using hshown

/-- A program of version 2.0 with a statement that this version lacks. -/
theorem parse_gates_nop : ∃ text output, text = "OPENQASM 2.0;nop;".toList ∧
    parse ⟨0⟩ text {} = .ok output ∧
    (∀ diagnostic ∈ output.diagnostics, ¬diagnostic.code.isFailure) ∧
    (∃ version ∈ output.tree.stated?.or none, version.major = 2) ∧
    output.Answers text .unsupportedFeature [⟨1⟩] ∧
    ∀ diagnostic ∈ output.diagnostics, diagnostic.code ≠ .semanticWarning := by
  let text := "OPENQASM 2.0;nop;".toList
  have hlexical : (tokenize ⟨0⟩ text).2 = [] := by decide +kernel
  have hreported : (ending (program ⟨⟨0⟩, text, {}⟩ (startState ⟨0⟩ text {}))).diagnostics.items.map
      Diagnostic.code = [.unsupportedFeature] := by decide +kernel
  have htree : (parse ⟨0⟩ text {}).toOption.map (fun output => (output.tree.stated?,
      output.tree.descendants.filter fun id => (output.tree.kind? id).any NodeKind.needsVersion3)) =
        some (some ⟨2, some 0⟩, [⟨1⟩]) := by decide +kernel
  obtain ⟨output, hparse, hgates⟩ :=
    (parse_gates ⟨0⟩ text {}).resolve_right (not_crashes (by decide +kernel))
  obtain ⟨root, state, hprogram, -, -, hshown⟩ := exists_of_parse_ok hparse
  rw [hprogram] at hreported
  have hfailures : ∀ diagnostic ∈ output.diagnostics, ¬diagnostic.code.isFailure := by
    intro diagnostic hd
    rw [hshown, hlexical, List.nil_append] at hd
    have hcode := List.mem_map_of_mem (f := Diagnostic.code) (Diagnostics.mem_of_mem_sorted hd)
    rw [show state.diagnostics.items.map Diagnostic.code = _ from hreported,
      List.mem_singleton] at hcode
    rw [hcode]
    nofun
  rw [hparse] at htree
  obtain ⟨hstated, hnodes⟩ := Prod.mk.inj (Option.some.inj htree)
  have hversion : ∃ version ∈ output.tree.stated?.or none, version.major = 2 :=
    ⟨⟨2, some 0⟩, by rw [hstated]; rfl, rfl⟩
  have h2 := (hgates hfailures).1 hversion
  rw [hnodes] at h2
  exact ⟨text, output, rfl, hparse, hfailures, hversion, h2⟩

end Grammar

end OpenQasm
