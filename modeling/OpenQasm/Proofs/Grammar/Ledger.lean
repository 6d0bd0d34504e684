import Mathlib.Data.List.Perm.Basic
import OpenQasm.Proofs.Grammar.Arena
import OpenQasm.Proofs.Grammar.Strict
import OpenQasm.Proofs.Tree.Scopes

/-!
# A ledger of a parse

What is reported about names and about versions can be read off the tree, since every such report
belongs to a scope or to a node. While a production goes on the two sides do not match yet: a report
waits for its node, a scope that has been left waits for the node that opened it, a register waits
to become a parameter. A ledger lists what waits, and each piece of the grammar has one rule for it.
-/

namespace OpenQasm

/-- Whether a report is about a version. -/
def Code.isOfVersion (code : Code) : Bool := code == .unsupportedFeature || code == .semanticWarning

/-- Whether a report is about names or about a version. -/
def Code.isNoted (code : Code) : Bool := code == .duplicateDeclaration || code.isOfVersion

/-- Whether version 2 lacks what a node is. -/
def NodeKind.needsVersion3 {ι : Type} : NodeKind ι → Bool
  | .calibrationGrammar _ | .classicalDecl .. | .constDecl .. | .ioDecl .. | .aliasDecl .. |
    .subroutineDef .. | .externDecl .. | .cal _ | .defcal .. | .box .. | .forStmt .. |
    .whileStmt .. | .switchStmt .. | .delay .. | .nop _ => true
  | _ => false

/-- Whether a node is something that only version 2 has. -/
def NodeKind.isDeprecated {ι : Type} : NodeKind ι → Bool
  | .opaqueDecl .. | .registerDecl .. => true
  | _ => false

/-- Whether a node is something that is to be reported in a version. -/
def NodeKind.isNoted {ι : Type} (version : Option Version) (kind : NodeKind ι) : Bool :=
  if Grammar.isVersion2 version then kind.needsVersion3 else kind.isDeprecated

/-- Whether a node is noted does not depend on its children. -/
@[simp] theorem NodeKind.isNoted_map {ι κ : Type} (f : ι → κ) (version : Option Version)
    (kind : NodeKind ι) : (kind.map f).isNoted version = kind.isNoted version := by
  unfold isNoted
  cases kind <;> rfl

/-- The code under which features are reported in a version. -/
def Code.ofVersion (version : Option Version) : Code :=
  if Grammar.isVersion2 version then .unsupportedFeature else .semanticWarning

/-- A node without what a literal spells, which may become something else later on. -/
def Node.masked (node : Node) : Node :=
  match node.kind with
  | .literal _ => { node with kind := .error }
  | _ => node

/-- The nodes pushed, with their literals masked. -/
def Builder.masked (builder : Builder) : List Node := builder.nodes.toList.map Node.masked

/-- What an identifier declares if it is declared. -/
def Grammar.Placed.declaration? (node : Grammar.Placed) : Option Declaration :=
  match node.kind with
  | .identifier text => some (text, node.span)
  | _ => none

namespace Tree

variable (tree : Tree) (version : Option Version)

/-- Whether a node of the tree is something that is to be reported in a version. -/
def isNoted (id : NodeId) : Bool := (tree.kind? id).any (NodeKind.isNoted version)

/-- The parameters of a subroutine that would be reported if they were statements. -/
def notedParameters (id : NodeId) : List NodeId :=
  ((tree.kind? id).elim [] NodeKind.parameters).filter (tree.isNoted version)

/-- Whether a location lies within the text of a node. -/
def Encloses (id : NodeId) (span : Span) : Prop :=
  ∃ node, tree.node? id = some node ∧ node.span.contains span

/-- Whether a node that was pushed is a node of the tree, perhaps as another literal. -/
def Stands (node : Grammar.Placed) : Prop :=
  (tree.node? node.id).map Node.masked = some (Node.masked ⟨node.kind, node.span⟩)

end Tree

/-- What a literal and an error have in common is known of a node that stands in the tree. -/
theorem Tree.Stands.elim {tree : Tree} {node : Grammar.Placed} {β : Type} (h : tree.Stands node)
    (none : β) (f : NodeKind NodeId → β) (hf : ∀ value, f (.literal value) = f .error) :
    (tree.kind? node.id).elim none f = f node.kind := by
  have hmask (node : Node) : f node.masked.kind = f node.kind := by
    unfold Node.masked
    split
    · next value hk => rw [hk, hf]
    · rfl
  obtain ⟨other, hother, heq⟩ := Option.map_eq_some_iff.1 h
  rw [kind?, hother, Option.map_some, Option.elim_some, ← hmask, heq, hmask]

/-- A node that stands in the tree is noted there if its kind is. -/
theorem Tree.Stands.isNoted {tree : Tree} {node : Grammar.Placed} {version : Option Version}
    (h : tree.Stands node) : tree.isNoted version node.id = node.kind.isNoted version := by
  have hnoted := h.elim false (NodeKind.isNoted version) fun _ => by simp [NodeKind.isNoted,
    NodeKind.needsVersion3, NodeKind.isDeprecated]
  rw [← hnoted, Tree.isNoted]
  cases tree.kind? node.id <;> rfl

/-- It encloses there what lies within its span. -/
theorem Tree.Stands.encloses {tree : Tree} {node : Grammar.Placed} {span : Span}
    (h : tree.Stands node) (hs : node.span.contains span) : tree.Encloses node.id span := by
  have hmask (node : Node) : node.masked.span = node.span := by
    unfold Node.masked
    split <;> rfl
  obtain ⟨other, hother, heq⟩ := Option.map_eq_some_iff.1 h
  refine ⟨other, hother, ?_⟩
  rwa [← hmask, heq, hmask]

/-- An identifier that stands in the tree spells its name there. -/
theorem Tree.Stands.name? {tree : Tree} {node : Grammar.Placed} (h : tree.Stands node) :
    tree.name? node.id = node.declaration? := by
  have hmask (node : Node) : (match node.masked.kind with
      | .identifier text => some (text, node.masked.span)
      | _ => none) = match node.kind with
      | .identifier text => some (text, node.span)
      | _ => none := by
    obtain ⟨kind, span⟩ := node
    cases kind <;> rfl
  obtain ⟨other, hother, heq⟩ := Option.map_eq_some_iff.1 h
  have hname := hmask other
  rw [heq, hmask] at hname
  rw [Tree.name?, hother]
  exact hname.symm

/-- Identifiers that stand in the tree spell their names there. -/
theorem Tree.filterMap_name? {tree : Tree} {nodes : List Grammar.Placed}
    (h : ∀ node ∈ nodes, tree.Stands node) :
    (nodes.map Grammar.Placed.id).filterMap tree.name? =
      nodes.filterMap Grammar.Placed.declaration? := by
  rw [List.filterMap_map]
  exact List.filterMap_congr fun node hm => (h node hm).name?

/-- A statement that stands in the tree declares there what it declares. -/
theorem Tree.Stands.declared? {tree : Tree} {node : Grammar.Placed} (h : tree.Stands node) :
    Program.declared? tree node.id = node.kind.declaredName?.bind tree.name? := by
  have hname := h.elim none NodeKind.declaredName? fun _ => rfl
  rw [tree.declared?_eq, ← hname]
  cases tree.kind? node.id <;> rfl

/-- The parameter of a subroutine that stands in the tree declares there what it declares. -/
theorem Tree.Stands.parameter? {tree : Tree} {node : Grammar.Placed} (h : tree.Stands node) :
    tree.parameter? node.id = node.kind.parameterName?.bind tree.name? := by
  have hname := h.elim none NodeKind.parameterName? fun _ => rfl
  rw [← hname, Tree.parameter?]
  cases tree.kind? node.id with
  | none => rfl
  | some kind => cases kind.parameterName? <;> rfl

namespace Grammar

/-! ## Names of a scope -/

/-- A scope in which a declaration has been made. -/
def Scope.enter (scope : Scope) (declaration : Declaration) : Scope :=
  if (scope.lookup declaration.1).isSome then scope else declaration :: scope

/-- What is reported when declarations are made in a scope. -/
def Scope.conflicts (scope : Scope) : List Declaration → List Diagnostic
  | [] => []
  | (name, span) :: after =>
    ((scope.lookup name).map (redeclared name span)).toList ++
      Scope.conflicts (scope.enter (name, span)) after

/-- Names conflict with the scope, and later ones with the scope they find. -/
theorem Scope.conflicts_append (scope : Scope) (names more : List Declaration) :
    scope.conflicts (names ++ more) =
      scope.conflicts names ++ Scope.conflicts (names.foldl Scope.enter scope) more := by
  induction names generalizing scope with
  | nil => rfl
  | cons declaration names ih =>
    rw [List.cons_append, conflicts, conflicts, ih, List.foldl_cons, List.append_assoc]

/-- A name is looked up in the earlier declarations first. -/
theorem lookup_append {name : String} (before after : List Declaration) :
    (before ++ after).lookup name = (before.lookup name).or (after.lookup name) := by
  induction before with
  | nil => rfl
  | cons declaration before ih =>
    rw [List.cons_append, List.lookup_cons, List.lookup_cons, ih]
    split <;> rfl

/-- A scope knows the first declaration of each name, which is all that is asked of it. -/
theorem Scope.conflicts_eq {scope : Scope} {before : List Declaration}
    (h : ∀ name, scope.lookup name = before.lookup name) (names : List Declaration) :
    scope.conflicts names = redeclarations before names := by
  induction names generalizing scope before with
  | nil => rfl
  | cons declaration names ih =>
    obtain ⟨name, span⟩ := declaration
    rw [conflicts, redeclarations, h name]
    refine congrArg _ (ih fun other => ?_)
    rw [Scope.enter, lookup_append]
    split
    · next hs =>
      obtain ⟨first, hfirst⟩ := Option.isSome_iff_exists.1 hs
      rw [h] at hfirst ⊢
      by_cases hname : other = name
      · rw [hname, hfirst]
        rfl
      · simp [List.lookup_cons, beq_eq_false_iff_ne.2 hname]
    · next hs =>
      have hnone : before.lookup name = none := by
        rw [← h]
        exact Option.not_isSome_iff_eq_none.1 hs
      by_cases hname : other = name
      · simp [hname, hnone]
      · simp [List.lookup_cons, beq_eq_false_iff_ne.2 hname, h]

/-- What is reported when declarations are made in the innermost scope. -/
def State.conflicts (state : State) (names : List Declaration) : List Diagnostic :=
  (state.scopes.head?).elim [] (Scope.conflicts · names)

/-! ## Going on -/

/-- The reports of a state that were not there before. -/
def added (before after : State) : List Diagnostic :=
  after.diagnostics.items.drop before.diagnostics.items.length

/-- The nodes of a state that were not there before. -/
def pushed (before after : State) : List NodeId :=
  idsFrom before.builder.size (after.builder.size - before.builder.size)

/-- A version is in force for good. -/
structure Settled (version : Option Version) (state : State) : Prop where
  version : state.version = version
  settled : Reading.VersionSettled state

namespace Reading

variable (reading : Reading)

/-- A state further on, from which nothing has been taken back. -/
structure Onward (before after : State) : Prop where
  ready : ∀ levels, reading.Ready levels before → reading.Ready levels after
  settled : ∀ version, Settled version before → Settled version after
  masked : before.builder.masked <+: after.builder.masked
  reported : before.diagnostics.items <+: after.diagnostics.items
  previousEnd : before.previousEnd ≤ after.previousEnd

end Reading

/-- A location lies in the text that has been read. -/
def Reading.Within (reading : Reading) (state : State) (span : Span) : Prop :=
  span.source = reading.context.source ∧ span.start ≤ span.stop ∧ span.stop ≤ state.previousEnd

/-- The nodes pushed are the first nodes of the tree. -/
def Into (tree : Tree) (state : State) : Prop :=
  state.builder.masked <+: tree.nodes.toList.map Node.masked

section
variable {reading : Reading} {before middle after : State} {tree : Tree}

/-- Where nothing is done the state has gone onward. -/
theorem Reading.Onward.refl (state : State) : reading.Onward state state where
  ready := fun _ h => h
  settled := fun _ h => h
  masked := List.prefix_rfl
  reported := List.prefix_rfl
  previousEnd := Nat.le_refl _

/-- Two steps onward are one. -/
theorem Reading.Onward.trans (h : reading.Onward before middle) (h' : reading.Onward middle after) :
    reading.Onward before after where
  ready := fun levels hr => h'.ready levels (h.ready levels hr)
  settled := fun version hs => h'.settled version (h.settled version hs)
  masked := h.masked.trans h'.masked
  reported := h.reported.trans h'.reported
  previousEnd := Nat.le_trans h.previousEnd h'.previousEnd

/-- What lies within the text read so far does so later on. -/
theorem Reading.Within.onward {span : Span} (h : reading.Within before span)
    (ho : reading.Onward before after) : reading.Within after span :=
  ⟨h.1, h.2.1, Nat.le_trans h.2.2 ho.previousEnd⟩

/-- What is built into the tree later on is in it now. -/
theorem Into.onward (h : Into tree after) (ho : reading.Onward before after) : Into tree before :=
  ho.masked.trans h

/-- The diagnostics of two stretches are those of both. -/
theorem added_trans (h : reading.Onward before middle) (h' : reading.Onward middle after) :
    added before after = added before middle ++ added middle after := by
  obtain ⟨more, hmore⟩ := h.reported
  obtain ⟨more', hmore'⟩ := h'.reported
  rw [added, added, added, ← hmore', ← hmore, List.append_assoc, List.drop_left, List.drop_left,
    ← List.append_assoc, List.drop_left]

/-- There is a kind and a span for each node. -/
theorem length_masked (builder : Builder) : builder.masked.length = builder.size := by
  simp [Builder.masked, Builder.size]

/-- The nodes of two stretches are those of both. -/
theorem pushed_trans (h : reading.Onward before middle) (h' : reading.Onward middle after) :
    pushed before after = pushed before middle ++ pushed middle after := by
  have hle := h.masked.length_le
  have hle' := h'.masked.length_le
  simp only [length_masked] at hle hle'
  rw [pushed, pushed, pushed, show after.builder.size - before.builder.size =
    (middle.builder.size - before.builder.size) +
      (after.builder.size - middle.builder.size) by omega,
    idsFrom_add, show before.builder.size + (middle.builder.size - before.builder.size) =
    middle.builder.size by omega]

end

/-! ## Books -/

/-- What waits while a production goes on. -/
structure Book where
  /-- Nodes that are to be looked at again. -/
  roots : List Placed := []
  /-- Tokens that a report may still be made about. -/
  claims : List Span := []
  /-- Reports about a version that wait for their node. -/
  pending : List Diagnostic := []
  /-- Nodes that would be reported if they were not to become parameters. -/
  loose : List NodeId := []
  /-- What has been declared in the innermost scope. -/
  names : List Declaration := []
  /-- Scopes that have been left and wait for the node that opened them. -/
  closed : List (List Declaration) := []

/-- One book after another. -/
def Book.append (book more : Book) : Book where
  roots := book.roots ++ more.roots
  claims := book.claims ++ more.claims
  pending := book.pending ++ more.pending
  loose := book.loose ++ more.loose
  names := book.names ++ more.names
  closed := book.closed ++ more.closed

instance : Append Book := ⟨Book.append⟩

namespace Reading

/-- Every token has a text. -/
def Solid (reading : Reading) : Prop :=
  ∀ token ∈ reading.tokens, token.span.start < token.span.stop

variable (reading : Reading) (tree : Tree) (version : Option Version)

/-- Where the reports about names and versions begin, and the tokens that others may be made about.
-/
def starts (reports : List Diagnostic) (claims : List Span) : List Nat :=
  (reports.filter (·.code.isNoted)).map (·.span.start) ++ claims.map (·.start)

/-- What has been reported from one state to another is what the nodes pushed on the way call for,
but for what the book says. -/
structure Accounts (before after : State) (book : Book) : Prop where
  roots : ∀ root ∈ book.roots, tree.Stands root
  scopes : after.scopes = before.scopes.modifyHead (book.names.foldl Scope.enter)
  duplicates : ((added before after).filter (·.code == .duplicateDeclaration)).Perm
    (before.conflicts book.names ++ book.closed.flatMap (redeclarations []) ++
      (pushed before after).flatMap tree.redeclarationsAt)
  codes : ∀ diagnostic ∈ added before after, diagnostic.code.isOfVersion →
    diagnostic.code = .ofVersion version
  features : ∃ pairs : List (Diagnostic × NodeId),
    ((added before after).filter (·.code.isOfVersion)).Perm (pairs.map Prod.fst ++ book.pending) ∧
    ((pushed before after).filter (tree.isNoted version)).Perm
      (pairs.map Prod.snd ++ (pushed before after).flatMap (tree.notedParameters version) ++
        book.loose) ∧
    ∀ pair ∈ pairs, tree.Encloses pair.2 pair.1.span
  apart : reading.Solid →
    (starts (added before after) book.claims).Nodup ∧
    ∀ start ∈ starts (added before after) book.claims,
      before.previousEnd ≤ start ∧ start < after.previousEnd

/-- A production that started in one state has come to another one, and the book says what waits. -/
structure Ledger (levels : Nat) (before after : State) (book : Book) : Prop where
  ready : reading.Ready levels before
  settled : Settled version before
  onward : reading.Onward before after
  extent : ∀ span ∈ book.claims ++ book.pending.map (·.span), reading.Within after span
  accounts : Into tree after → reading.Accounts tree version before after book

section
variable {reading tree version} {levels : Nat} {before middle after : State} {book more : Book}

/-- Names conflict in the state before, and later ones in the state that they find. -/
theorem conflicts_append {names later : List Declaration}
    (h : middle.scopes = before.scopes.modifyHead (names.foldl Scope.enter)) :
    before.conflicts (names ++ later) = before.conflicts names ++ middle.conflicts later := by
  rw [State.conflicts, State.conflicts, State.conflicts, h]
  cases before.scopes with
  | nil => rfl
  | cons scope outer => exact scope.conflicts_append names later

/-- Accounts of two parts of a way are accounts of all of it. -/
theorem Accounts.trans (ho : reading.Onward before middle) (ho' : reading.Onward middle after)
    (h : reading.Accounts tree version before middle book)
    (h' : reading.Accounts tree version middle after more) :
    reading.Accounts tree version before after (book ++ more) where
  roots := fun root hr => (List.mem_append.1 hr).elim (h.roots root) (h'.roots root)
  scopes := by
    rw [h'.scopes, h.scopes]
    show _ = before.scopes.modifyHead ((book.names ++ more.names).foldl Scope.enter)
    cases before.scopes with
    | nil => rfl
    | cons scope outer => simp only [List.modifyHead_cons, List.foldl_append]
  duplicates := by
    have hperm := h.duplicates
    have hperm' := h'.duplicates
    show List.Perm _ (before.conflicts (book.names ++ more.names) ++
      (book.closed ++ more.closed).flatMap (redeclarations []) ++ _)
    rw [added_trans ho ho', pushed_trans ho ho', conflicts_append h.scopes]
    simp only [List.perm_iff_count, List.filter_append, List.flatMap_append, List.count_append]
      at hperm hperm' ⊢
    intro diagnostic
    have := hperm diagnostic
    have := hperm' diagnostic
    omega
  codes := fun diagnostic hd => by
    rw [added_trans ho ho'] at hd
    exact (List.mem_append.1 hd).elim (h.codes diagnostic) (h'.codes diagnostic)
  features := by
    obtain ⟨pairs, hreports, hnodes, hwithin⟩ := h.features
    obtain ⟨pairs', hreports', hnodes', hwithin'⟩ := h'.features
    refine ⟨pairs ++ pairs', ?_, ?_, fun pair hp =>
      (List.mem_append.1 hp).elim (hwithin pair) (hwithin' pair)⟩
    · rw [added_trans ho ho']
      show List.Perm _ (_ ++ (book.pending ++ more.pending))
      simp only [List.perm_iff_count, List.filter_append, List.map_append, List.count_append]
        at hreports hreports' ⊢
      intro diagnostic
      have := hreports diagnostic
      have := hreports' diagnostic
      omega
    · rw [pushed_trans ho ho']
      show List.Perm _ (_ ++ (book.loose ++ more.loose))
      simp only [List.perm_iff_count, List.filter_append, List.map_append, List.flatMap_append,
        List.count_append] at hnodes hnodes' ⊢
      intro id
      have := hnodes id
      have := hnodes' id
      omega
  apart := fun hs => by
    obtain ⟨hnodup, hin⟩ := h.apart hs
    obtain ⟨hnodup', hin'⟩ := h'.apart hs
    have hperm : (starts (added before after) (book ++ more).claims).Perm
        (starts (added before middle) book.claims ++ starts (added middle after) more.claims) := by
      show List.Perm (starts _ (book.claims ++ more.claims)) _
      rw [added_trans ho ho']
      simp only [starts, List.perm_iff_count, List.filter_append, List.map_append,
        List.count_append]
      intro start
      omega
    refine ⟨hperm.nodup_iff.2 (List.nodup_append.2 ⟨hnodup, hnodup', ?_⟩), fun start hm => ?_⟩
    · intro start hm other hm' heq
      have := (hin start hm).2
      have := (hin' other hm').1
      omega
    · rcases List.mem_append.1 (hperm.subset hm) with hm | hm
      · exact ⟨(hin start hm).1, Nat.lt_of_lt_of_le (hin start hm).2 ho'.previousEnd⟩
      · exact ⟨Nat.le_trans ho.previousEnd (hin' start hm).1, (hin' start hm).2⟩

/-- The entries of two stretches are those of both. -/
theorem Ledger.trans (h : reading.Ledger tree version levels before middle book)
    (h' : reading.Ledger tree version levels middle after more) :
    reading.Ledger tree version levels before after (book ++ more) where
  ready := h.ready
  settled := h.settled
  onward := h.onward.trans h'.onward
  extent := fun span hm => by
    have hin : span ∈ (book.claims ++ more.claims) ++ (book.pending ++ more.pending).map (·.span) :=
      hm
    simp only [List.map_append, List.mem_append] at hin
    have h1 := h.extent span
    have h2 := h'.extent span
    simp only [List.mem_append] at h1 h2
    rcases hin with (hc | hc) | (hp | hp)
    · exact (h1 (.inl hc)).onward h'.onward
    · exact h2 (.inl hc)
    · exact (h1 (.inr hp)).onward h'.onward
    · exact h2 (.inr hp)
  accounts := fun hi =>
    (h.accounts (hi.onward h'.onward)).trans h.onward h'.onward (h'.accounts hi)

end

end Reading

end Grammar

end OpenQasm
