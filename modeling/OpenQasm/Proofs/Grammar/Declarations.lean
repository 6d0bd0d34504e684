import OpenQasm.Proofs.Grammar.Expressions

/-!
# Readings of declarations and directives

Each production yields a statement. Names are declared, and the version is set, when nothing can
fail any more, so a production that stops has declared nothing.
-/

namespace OpenQasm.Grammar.Reading

section
variable {reading : Reading} {levels : Nat} {inner : Level} {base state : State}
  {read ahead rest : List Token} {token : Token} {roots : List Placed} {braces : Nat} {slot : Slot}
  {β : Type} {post : β → State → Prop} {stop : State → Prop}

/-! ## Directives -/

/-- A version statement yields a statement. -/
theorem versionStatement_runs (h : reading.Ready levels base) :
    reading.Runs versionStatement base (reading.Yields True .statement levels base)
      (reading.Dropped base) := by
  refine Runs.get ((Held.refl h).expect rfl fun token rest after hsplit hkeyword h => ?_)
  refine h.report_unless rfl fun after h => h.current ?_
  cases rest with
  | nil => exact h.unexpected
  | cons next rest =>
    refine Runs.ite (fun hk => ?_) fun _ => h.unexpected
    have hb : isBrace next.kind = false := by rcases hk with hk | hk <;> rw [hk] <;> rfl
    dsimp only
    split
    · refine h.advance hb fun after h => h.expect rfl fun _ rest after _ _ h => ?_
      refine Runs.ite (fun hfirst => ?_) fun _ => ?_
      · have hunsettled : ¬VersionSettled base := by
          rw [VersionSettled, hsplit]
          simpa [startsWith, hkeyword] using hfirst
        exact h.setVersion hunsettled fun base' after hr h =>
          h.endsFrom hr (by simp) (start_eq hsplit) rfl rfl rfl rfl
      · exact h.endsFrom (.refl _) (by simp) (start_eq hsplit) rfl rfl rfl rfl
    · exact h.failSyntax

/-- The text of a string is taken with its token. -/
theorem Held.stringText {what : String} {next : String → Parser β}
    (h : reading.Held levels base read ahead roots braces state)
    (hn : ∀ text token rest after, ahead = token :: rest →
      reading.Held levels base (read ++ [token]) rest roots braces after →
      reading.Runs (next text) after post (reading.Dropped base)) :
    reading.Runs (stringText what >>= next) state post (reading.Dropped base) := by
  refine Runs.assoc (h.current ?_)
  cases ahead with
  | nil => exact h.unexpected_bind
  | cons token rest =>
    refine Runs.ite_bind (fun hk => ?_) fun _ => h.unexpected_bind
    have hb : isBrace token.kind = false := by rcases hk with hk | hk <;> rw [hk] <;> rfl
    exact Runs.assoc (h.advance hb fun after h => hn _ token rest after rfl h)

/-- An include yields a statement. -/
theorem includeStatement_runs (h : reading.Ready levels base) :
    reading.Runs includeStatement base (reading.Yields True .statement levels base)
      (reading.Dropped base) := by
  refine (Held.refl h).expect rfl fun token rest after hsplit _ h => Runs.get ?_
  refine h.report_if rfl fun after h => h.stringText fun path _ rest after _ h => ?_
  refine h.expect rfl fun _ rest after _ _ h => ?_
  exact h.endsFrom (.refl _) (by simp) (start_eq hsplit) rfl rfl rfl rfl

/-- The choice of a calibration grammar yields a statement. -/
theorem calibrationGrammar_runs (h : reading.Ready levels base) :
    reading.Runs calibrationGrammar base (reading.Yields True .statement levels base)
      (reading.Dropped base) := by
  refine (Held.refl h).expect rfl fun token rest after hsplit _ h => ?_
  refine h.stringText fun path _ rest after _ h => h.expect rfl fun _ rest after _ _ h => ?_
  refine h.spanFrom (by simp) (start_eq hsplit) (h.requireVersion3 fun after h => ?_)
  exact h.ends (.refl _) (by simp) rfl rfl rfl rfl rfl

/-- A pragma yields a statement of one token. -/
theorem pragma_runs (h : reading.Held levels base ([] ++ [token]) ahead [] 0 state) :
    reading.Runs (pragma token) state (reading.Yields True .statement levels base) stop :=
  h.ends (.refl _) (by simp) rfl rfl rfl h.token_span rfl

/-- So does an annotation. -/
theorem annotationLine_runs (h : reading.Held levels base ([] ++ [token]) ahead [] 0 state) :
    reading.Runs (annotationLine token) state (reading.Yields True .statement levels base)
      stop := by
  unfold annotationLine
  split
  next keyword content hparts =>
  have hline : '\n' ∉ keyword := by
    obtain rfl : _ = keyword := congrArg Prod.fst hparts
    exact fun hm => absurd (List.all_eq_true.1 List.all_takeWhile _ hm) (by decide)
  exact h.ends (.refl _) (by simp) rfl rfl (decide_eq_true (Text.oneLine_ofList.2 hline))
    h.token_span rfl

/-! ## Calibrations -/

/-- A calibration body is taken with its token. -/
theorem Held.calibrationBody {next : String → Parser β}
    (h : reading.Held levels base read ahead roots braces state)
    (hn : ∀ body token rest after, ahead = token :: rest →
      reading.Held levels base (read ++ [token]) rest roots braces after →
      reading.Runs (next body) after post (reading.Dropped base)) :
    reading.Runs (calibrationBody >>= next) state post (reading.Dropped base) :=
  Runs.assoc (h.expect rfl fun token rest after hsplit _ h => hn _ token rest after hsplit h)

/-- A calibration block yields a statement. -/
theorem cal_runs (h : reading.Ready levels base) :
    reading.Runs cal base (reading.Yields True .statement levels base)
      (reading.Dropped base) := by
  refine (Held.refl h).expect rfl fun token rest after hsplit _ h => ?_
  refine h.calibrationBody fun body _ rest after _ h => ?_
  refine h.spanFrom (by simp) (start_eq hsplit) (h.requireVersion3 fun after h => ?_)
  exact h.ends (.refl _) (by simp) rfl rfl rfl rfl rfl

/-- The signature of a calibration is passed over as a whole. -/
theorem defcal_runs (hready : reading.Ready levels base) :
    reading.Runs defcal base (reading.Yields True .statement levels base)
      (reading.Dropped base) := by
  refine (Held.refl hready).expect rfl fun token rest after hsplit hk h' => ?_
  have hsignature : reading.fair → Balanced (rest.takeWhile (!endsSignature ·.kind)) := fun hf => by
    refine reading.signatures hf (reading.tokens.take base.position) token rest ?_ hk
    rw [← hsplit, hready.rest, List.take_append_drop]
  refine h'.current ?_
  cases rest with
  | nil => exact h'.unexpected
  | cons first rest =>
    refine Runs.ite (fun _ => h'.unexpected_bind) fun hfirst => Runs.get ?_
    rw [h'.rest]
    have hrest := (List.takeWhile_append_dropWhile (p := (!endsSignature ·.kind))
      (l := first :: rest)).symm
    have h := h'.pass hrest fun hf _ => hsignature hf
    refine Runs.modify (Runs.read (Runs.get
      (h.calibrationBody fun body _ more after hbody h => ?_)))
    refine h.spanFrom (by simp) (start_eq hsplit) (h.requireVersion3 fun after h => ?_)
    -- An error that takes several lines is the last token, but here the body follows.
    have hline : '\n' ∉ first.text := fun hm => by
      rcases hready.line [token] hsplit hm with hkind | ⟨hkind, rfl⟩
      · exact hfirst (by rw [hkind]; rfl)
      · simp [hkind, endsSignature] at hbody
    exact h.ends (.refl _) (by simp) rfl rfl (decide_eq_true (Text.oneLine_ofList.2 hline)) rfl rfl

/-! ## Declarations -/

/-- The declaration of qubits yields a statement. -/
theorem qubitDecl_runs (hi : reading.Spec levels inner) (h : reading.Ready levels base) :
    reading.Runs (qubitDecl inner) base (reading.Yields True .statement levels base)
      (reading.Dropped base) := by
  refine (Held.refl h).expect rfl fun token rest after hsplit _ h => ?_
  refine h.yieldsOption (designator_runs hi h.ready) fun size more rest after _ hsize h => ?_
  refine h.yields (identifier_runs h.ready) fun name more rest after _ _ hname _ h => ?_
  refine h.expect rfl fun _ rest after _ _ h => h.declare fun base' after hr h => ?_
  exact h.endsFrom hr (by simp) (start_eq hsplit) (by simp [NodeKind.children, NodeKind.slots])
    (by simpa [NodeKind.slots] using ⟨by simpa using hsize, hname⟩) rfl rfl

/-- The text suggested for a register is found without reading on. -/
theorem registerReplacement_runs {register : RegisterKind} {name : Placed} {size : Option Placed}
    {next : String → Parser β} (hn : ∀ text, reading.Runs (next text) state post stop) :
    reading.Runs (registerReplacement register name size >>= next) state post stop := by
  refine Runs.assoc (Runs.assoc (Runs.read (Runs.pure_bind ?_)))
  cases size with
  | none => exact hn _
  | some size => exact Runs.assoc (Runs.assoc (Runs.read (Runs.pure_bind (hn _))))

/-- The declaration of a register in the old form yields a statement. -/
theorem registerDecl_runs {register : RegisterKind} (hi : reading.Spec levels inner)
    (h : reading.Ready levels base) (hr : base.rest = token :: rest)
    (hb : isBrace token.kind = false) :
    reading.Runs (registerDecl inner register) base (reading.Yields True .statement levels base)
      (reading.Dropped base) := by
  have h0 := Held.refl h
  rw [hr] at h0
  refine h0.current (h0.advance hb fun after h => ?_)
  refine h.yields (identifier_runs h.ready) fun name more rest after _ _ hname _ h => ?_
  refine h.yieldsOption (designator_runs hi h.ready) fun size more rest after _ hsize h => ?_
  refine Runs.get (h.expect rfl fun _ rest after _ _ h => h.declare fun base' after hrev h => ?_)
  refine registerReplacement_runs fun text => h.deprecated fun after h => ?_
  exact h.endsFrom hrev (by simp) (start_eq hr) (by simp [NodeKind.children, NodeKind.slots])
    (by simpa [NodeKind.slots] using ⟨hname, by simpa using hsize⟩) rfl rfl

/-- An initializer yields an expression. -/
theorem initializer_runs {type : Placed} (hi : reading.Spec levels inner)
    (h : reading.Ready levels base) :
    reading.Runs (initializer inner type) base (reading.Yields False .expression levels base)
      (reading.Dropped base) := by
  refine Runs.join (Runs.bind (p := reading.Yields False .expression levels base) ?_ ?_)
  · exact (Held.refl h).sees (fun _ _ _ _ => arrayLiteral_runs hi h) (value_runs hi h)
  · intro value after hvalue
    split
    · exact hvalue.retagAngle
    · exact hvalue

/-- The declaration of a variable yields a statement. -/
theorem classicalDecl_runs (hi : reading.Spec levels inner) (h : reading.Ready levels base) :
    reading.Runs (classicalDecl inner) base (reading.Yields True .statement levels base)
      (reading.Dropped base) := by
  have h0 := Held.refl h
  refine h0.currentSpan fun start hstart => ?_
  refine h0.yields (type_runs hi h) fun type more rest after _ _ htype _ h => ?_
  refine h.requireVersion3 fun after h => ?_
  refine h.yields (identifier_runs h.ready) fun name more rest after _ _ hname _ h => ?_
  refine Runs.join (h.yieldsOption (optional_runs h.ready rfl fun _ => initializer_runs hi)
    fun init more rest after _ hinit h => ?_)
  refine h.expect rfl fun _ rest after _ _ h => h.declare fun base' after hr h => ?_
  exact h.endsFrom hr (by simp) hstart (by simp [NodeKind.children, NodeKind.slots])
    (by simpa [NodeKind.slots] using ⟨htype, hname, by simpa using hinit⟩) rfl rfl

/-- So does that of a constant. -/
theorem constDecl_runs (hi : reading.Spec levels inner) (h : reading.Ready levels base) :
    reading.Runs (constDecl inner) base (reading.Yields True .statement levels base)
      (reading.Dropped base) := by
  refine (Held.refl h).expect rfl fun token rest after hsplit _ h => ?_
  refine h.yields (type_runs hi h.ready) fun type more rest after _ _ htype _ h => ?_
  refine h.yields (identifier_runs h.ready) fun name more rest after _ _ hname _ h => ?_
  refine h.expect rfl fun _ rest after _ _ h => ?_
  refine h.yields (initializer_runs hi h.ready) fun init more rest after _ _ hinit _ h => ?_
  refine h.expect rfl fun _ rest after _ _ h => ?_
  refine h.spanFrom (by simp) (start_eq hsplit) (h.requireVersion3 fun after h => ?_)
  refine h.declare fun base' after hr h => ?_
  exact h.ends hr (by simp) (by simp [NodeKind.children, NodeKind.slots])
    (by simpa [NodeKind.slots] using ⟨htype, hname, hinit⟩) rfl rfl rfl

/-- So does that of an input or an output. -/
theorem ioDecl_runs {direction : Direction} (hi : reading.Spec levels inner)
    (h : reading.Ready levels base) (hr : base.rest = token :: rest)
    (hb : isBrace token.kind = false) :
    reading.Runs (ioDecl inner direction) base (reading.Yields True .statement levels base)
      (reading.Dropped base) := by
  have h0 := Held.refl h
  rw [hr] at h0
  refine h0.current (h0.advance hb fun after h => ?_)
  refine h.yields (type_runs hi h.ready) fun type more rest after _ _ htype _ h => ?_
  refine h.yields (identifier_runs h.ready) fun name more rest after _ _ hname _ h => ?_
  refine h.expect rfl fun _ rest after _ _ h => ?_
  refine h.spanFrom (by simp) (start_eq hr) (h.requireVersion3 fun after h => ?_)
  refine h.declare fun base' after hrev h => ?_
  exact h.ends hrev (by simp) (by simp [NodeKind.children, NodeKind.slots])
    (by simpa [NodeKind.slots] using ⟨htype, hname⟩) rfl rfl rfl

/-- So does that of an alias. -/
theorem aliasDecl_runs (hi : reading.Spec levels inner) (h : reading.Ready levels base) :
    reading.Runs (aliasDecl inner) base (reading.Yields True .statement levels base)
      (reading.Dropped base) := by
  refine (Held.refl h).expect rfl fun token rest after hsplit _ h => ?_
  refine h.yields (identifier_runs h.ready) fun name more rest after _ _ hname _ h => ?_
  refine h.expect rfl fun _ rest after _ _ h => ?_
  refine h.yieldsAll (joined_runs h.ready rfl hi.expression)
    fun parts more rest after _ hparts h => ?_
  refine h.expect rfl fun _ rest after _ _ h => ?_
  refine h.spanFrom (by simp) (start_eq hsplit) (h.requireVersion3 fun after h => ?_)
  refine h.declare fun base' after hr h => ?_
  exact h.ends hr (by simp) (by simp [NodeKind.children, NodeKind.slots])
    (by simpa [NodeKind.slots] using ⟨hname, hparts⟩) rfl rfl rfl

/-- The parameters of a gate yield names. -/
theorem gateParams_runs (h : reading.Ready levels base) :
    reading.Runs gateParams base (reading.YieldsAll False .name levels base)
      (reading.Dropped base) := by
  refine (Held.refl h).accept rfl (fun token rest after _ _ h => ?_) (YieldsAll.nil h)
  refine h.yieldsAll (identifiers_runs h.ready) fun params more rest after _ hparams h => ?_
  refine h.expect rfl fun _ rest after _ _ h => ?_
  exact ⟨⟨base, _, _, .refl _, h⟩, hparams⟩

/-- The declaration of an opaque gate yields a statement. -/
theorem opaqueDecl_runs (h : reading.Ready levels base) :
    reading.Runs opaqueDecl base (reading.Yields True .statement levels base)
      (reading.Dropped base) := by
  refine (Held.refl h).expect rfl fun token rest after hsplit _ h => ?_
  refine h.yields (identifier_runs h.ready) fun name more rest after _ _ hname _ h => ?_
  refine h.yieldsAll (gateParams_runs h.ready) fun params more rest after _ hparams h => ?_
  refine h.yieldsAll (identifiers_runs h.ready) fun qubits more rest after _ hqubits h => ?_
  refine h.expect rfl fun _ rest after _ _ h => h.deprecated fun after h => ?_
  refine h.declare fun base' after hr h => ?_
  exact h.endsFrom hr (by simp) (start_eq hsplit) (by simp [NodeKind.children, NodeKind.slots])
    (by simpa [NodeKind.slots] using ⟨hname, hparams, hqubits⟩) rfl rfl

/-! ## Definitions with a scope of their own -/

/-- Every part takes its place. -/
def Fitting (first second third : Slot) (value : List Placed × List Placed × Placed) : Prop :=
  (∀ node ∈ value.1, first.accepts node.kind) ∧ (∀ node ∈ value.2.1, second.accepts node.kind) ∧
    third.accepts value.2.2.kind

/-- The stop within a scope in which nothing is declared yet. -/
theorem Dropped.within (h : reading.Dropped base state) :
    ∃ base', Revised True base base' ∧ reading.Dropped base' state :=
  ⟨base, .refl _, h⟩

/-- The definition of a gate yields a statement. -/
theorem gateDef_runs (hi : reading.Spec levels inner) (h : reading.Ready levels base) :
    reading.Runs (gateDef inner) base (reading.Yields True .statement levels base)
      (reading.Dropped base) := by
  refine (Held.refl h).expect rfl fun token rest after hsplit _ h => ?_
  refine h.yields (identifier_runs h.ready) fun name more rest after _ _ hname _ h => ?_
  refine h.gives (fun value => value.1 ++ value.2.1 ++ [value.2.2])
    (p := Fitting .name .name .block)
    (inScope_runs _ h.ready (h.position_pos (by simp)) fun h => ?scope)
    fun value more rest after _ hvalue h => h.declare fun base' after hr h => ?_
  case scope =>
    refine (Held.refl h).givesAt id (gateParams_runs h) (fun _ hd => hd.within)
      fun params more rest after _ hparams h => ?_
    refine h.givesAt id (identifiers_runs h.ready) (fun _ hd => hd.within)
      fun qubits more rest after _ hqubits h => ?_
    refine Runs.ite (fun _ => h.unexpected_bind.conseq (fun _ _ hv => hv) fun _ hd => hd.within)
      fun _ => h.declare_all fun base' after hr h => ?_
    refine h.yieldsAt (block_runs hi h.ready) (fun after hd => ⟨base', hr, hd⟩)
      fun body more rest after _ _ hbody _ h => ?_
    exact ⟨⟨base', _, _, hr, h⟩, hparams, hqubits, hbody⟩
  exact h.endsFrom hr (by simp) (start_eq hsplit) (by simp [NodeKind.children, NodeKind.slots])
    (by simpa [NodeKind.slots, Fitting] using ⟨hname, hvalue⟩) rfl rfl

/-- A parameter in the old form yields a parameter. -/
theorem registerParam_runs {register : RegisterKind} (hi : reading.Spec levels inner)
    (h : reading.Ready levels base) (hr : base.rest = token :: rest)
    (hb : isBrace token.kind = false) :
    reading.Runs (registerParam inner register) base (reading.Yields True .parameter levels base)
      (reading.Dropped base) := by
  have h0 := Held.refl h
  rw [hr] at h0
  refine h0.currentSpan fun start hstart => h0.advance hb fun after h => ?_
  refine h.yields (identifier_runs h.ready) fun name more rest after _ _ hname _ h => ?_
  refine h.yieldsOption (designator_runs hi h.ready) fun size more rest after _ hsize h => ?_
  refine h.declare fun base' after hrev h => ?_
  exact h.endsFrom hrev (by simp) (hr ▸ hstart) (by simp [NodeKind.children, NodeKind.slots])
    (by simpa [NodeKind.slots] using ⟨hname, by simpa using hsize⟩) rfl rfl

/-- The type of a parameter yields a type. -/
theorem paramType_runs (hi : reading.Spec levels inner) (h : reading.Ready levels base) :
    reading.Runs (paramType inner) base (reading.Yields False .type levels base)
      (reading.Dropped base) := by
  refine (Held.refl h).peek ?_
  split
  · exact arrayRefType_runs hi h
  · exact arrayRefType_runs hi h
  · exact type_runs hi h

/-- A parameter of a subroutine yields a parameter. -/
theorem subroutineParam_runs (hi : reading.Spec levels inner) (h : reading.Ready levels base) :
    reading.Runs (subroutineParam inner) base (reading.Yields True .parameter levels base)
      (reading.Dropped base) := by
  have h0 := Held.refl h
  refine h0.currentSpan fun start hstart => h0.peek ?_
  split
  · next hk =>
    obtain ⟨token, rest, hr, hk⟩ := exists_of_peek hk
    exact registerParam_runs hi h hr (hk ▸ rfl)
  · next hk =>
    obtain ⟨token, rest, hr, hk⟩ := exists_of_peek hk
    exact registerParam_runs hi h hr (hk ▸ rfl)
  · refine h0.yields (paramType_runs hi h) fun type more rest after _ _ htype _ h => ?_
    refine h.yields (identifier_runs h.ready) fun name more rest after hne _ hname _ h => ?_
    refine h.declare fun base' after hr h => ?_
    exact h.endsFrom hr (by simp [hne]) hstart (by simp [NodeKind.children, NodeKind.slots])
      (by simpa [NodeKind.slots] using ⟨htype, hname⟩) rfl rfl

/-- The return type yields a type, if there is one. -/
theorem returnType_runs (hi : reading.Spec levels inner) (h : reading.Ready levels base) :
    reading.Runs (returnType inner) base
      (fun node => reading.YieldsAll False .type levels base node.toList)
      (reading.Dropped base) :=
  optional_runs h rfl fun _ => type_runs hi

/-- The definition of a subroutine yields a statement. -/
theorem subroutineDef_runs (hi : reading.Spec levels inner) (h : reading.Ready levels base) :
    reading.Runs (subroutineDef inner) base (reading.Yields True .statement levels base)
      (reading.Dropped base) := by
  refine (Held.refl h).expect rfl fun token rest after hsplit _ h => ?_
  refine h.yields (identifier_runs h.ready) fun name more rest after _ _ hname _ h => ?_
  refine h.gives (fun value => value.1 ++ value.2.1.toList ++ [value.2.2])
    (p := fun value => Fitting .parameter .type .block (value.1, value.2.1.toList, value.2.2))
    (inScope_runs _ h.ready (h.position_pos (by simp)) fun h => ?scope)
    fun value more rest after _ hvalue h => h.requireVersion3 fun after h =>
      h.declare fun base' after hr h => ?_
  case scope =>
    refine (Held.refl h).expectAt (fun _ hk => braceLevel?_plain (hk ▸ rfl))
      (fun _ hd => hd.within) fun token rest after _ _ h => ?_
    refine Runs.bind ((separated_runs h.ready fun _ => subroutineParam_runs hi).conseq
      (fun _ _ hv => hv) fun _ => h.dropped_within) fun params after hparams => ?_
    obtain ⟨base', more, rest, hr, -, h⟩ := h.follow hparams.1
    refine Runs.conseq (s := reading.Dropped base') ?_ (fun _ _ hv => hv)
      fun after hd => ⟨base', hr, hd⟩
    refine h.expect rfl fun _ rest after _ _ h => ?_
    refine h.yieldsOption (returnType_runs hi h.ready) fun type more rest after _ htype h => ?_
    refine h.yields (block_runs hi h.ready) fun body more rest after _ _ hbody _ h => ?_
    exact ⟨⟨base', _, _, hr, by simpa using h⟩, hparams.2, htype, hbody⟩
  obtain ⟨hparams, htype, hbody⟩ := hvalue
  exact h.endsFrom hr (by simp) (start_eq hsplit) (by simp [NodeKind.children, NodeKind.slots])
    (by simpa [NodeKind.slots] using ⟨hname, hparams, by simpa using htype, hbody⟩) rfl rfl

/-- The type of a register yields a type. -/
theorem registerType_runs (hi : reading.Spec levels inner) (h : reading.Ready levels base)
    (hr : base.rest = token :: rest) (hb : isBrace token.kind = false) :
    reading.Runs (registerType inner) base (reading.Yields False .type levels base)
      (reading.Dropped base) := by
  have h0 := Held.refl h
  rw [hr] at h0
  refine h0.currentSpan fun start hstart => h0.advance hb fun after h => ?_
  refine h.yieldsOption (designator_runs hi h.ready) fun size more rest after _ hslot h => ?_
  exact h.endsFrom (.refl _) (by simp) (hr ▸ hstart)
    (by simp [NodeKind.children, NodeKind.slots]) (by simpa [NodeKind.slots] using hslot) rfl rfl

/-- A parameter of an extern yields a type. -/
theorem externParam_runs (hi : reading.Spec levels inner) (h : reading.Ready levels base) :
    reading.Runs (externParam inner) base (reading.Yields False .type levels base)
      (reading.Dropped base) := by
  refine (Held.refl h).peek ?_
  split
  · next hk =>
    obtain ⟨token, rest, hr, hk⟩ := exists_of_peek hk
    exact registerType_runs hi h hr (hk ▸ rfl)
  · exact paramType_runs hi h

/-- The declaration of an extern yields a statement. -/
theorem externDecl_runs (hi : reading.Spec levels inner) (h : reading.Ready levels base) :
    reading.Runs (externDecl inner) base (reading.Yields True .statement levels base)
      (reading.Dropped base) := by
  refine (Held.refl h).expect rfl fun token rest after hsplit _ h => ?_
  refine h.yields (identifier_runs h.ready) fun name more rest after _ _ hname _ h => ?_
  refine h.expect rfl fun _ rest after _ _ h => ?_
  refine h.yieldsAll (separated_runs_fixed h.ready fun _ => externParam_runs hi)
    fun params more rest after _ hparams h => ?_
  refine h.expect rfl fun _ rest after _ _ h => ?_
  refine h.yieldsOption (returnType_runs hi h.ready) fun type more rest after _ htype h => ?_
  refine h.expect rfl fun _ rest after _ _ h => ?_
  refine h.spanFrom (by simp) (start_eq hsplit) (h.requireVersion3 fun after h => ?_)
  refine h.declare fun base' after hr h => ?_
  exact h.ends hr (by simp) (by simp [NodeKind.children, NodeKind.slots])
    (by simpa [NodeKind.slots] using ⟨hname, hparams, by simpa using htype⟩) rfl rfl rfl

end

end OpenQasm.Grammar.Reading
