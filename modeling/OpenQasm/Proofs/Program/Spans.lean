import OpenQasm.Proofs.Grammar.Spans
import OpenQasm.Proofs.Program.Compilation

/-!
# Spans of programs

Every span of a compilation lies in the text of a registered source. The spans of a source come from
its parse, the reports and edges of a program point at nodes of its trees, and neither marks nor
grafts nor the limit on errors make new spans. As sources are only ever added to a registry, what
points at one of them goes on doing so.
-/

namespace OpenQasm

open SourceMap (Within)

/-! ## Registries -/

/-- A span that lies in the text of a registered source. -/
def SourceMap.Points (sources : SourceMap) (span : Span) : Prop :=
  ∃ file, sources.get? span.source = some file ∧ span.LiesIn file.text.toList

/-- A span whose text can be shown: it lies in the text of a registered source, between two
characters, its ends are apart by its length, and there is a snippet and a location of it. -/
structure SourceMap.Shows (sources : SourceMap) (span : Span) : Prop where
  lies : ∃ file, sources.get? span.source = some file ∧
    span.start ≤ span.stop ∧ span.stop ≤ file.size ∧
    Text.IsBoundary file.text.toList span.start ∧ Text.IsBoundary file.text.toList span.stop
  length : span.start + span.length = span.stop
  snippet : ∃ text, sources.snippet? span = some text ∧ Text.width text.toList = span.length
  location : ∃ location, sources.location? span = some location ∧
    location.offset = span.start ∧ location.length = span.length

section
variable {sources sources' : SourceMap} {span : Span} {name text : String} {path : Option Path}
  {id : SourceId}

/-- A source that is found is registered. -/
theorem SourceMap.index_lt_of_get? {file : SourceFile} (h : sources.get? id = some file) :
    id.index < sources.size :=
  (Array.getElem?_eq_some_iff.1 h).1

/-- A registered source is found. -/
theorem SourceMap.exists_get? (h : id.index < sources.size) : ∃ file, sources.get? id = some file :=
  ⟨_, Array.getElem?_eq_getElem h⟩

/-- A span in an empty text is one at the start of any text. -/
theorem SourceMap.points_start (hid : id.index < sources.size) (hs : span.source = id)
    (hl : span.LiesIn []) : sources.Points span := by
  have hstop : span.stop = 0 := Nat.le_zero.1 hl.stop.le
  have hstart : span.start = 0 := Nat.le_zero.1 hl.start.le
  obtain ⟨file, hget⟩ := SourceMap.exists_get? hid
  refine ⟨file, hs ▸ hget, hl.ordered, ?_, ?_⟩
  · rw [hstart]
    exact Text.isBoundary_zero _
  · rw [hstop]
    exact Text.isBoundary_zero _

/-- A span that points into a source does so with more sources. -/
theorem SourceMap.Points.within (h : sources.Points span) (hw : Within sources sources') :
    sources'.Points span := by
  obtain ⟨file, hget, hlies⟩ := h
  exact ⟨file, (hw.get _ (SourceMap.index_lt_of_get? hget)).trans hget, hlies⟩

/-- What points at a text can be shown. -/
theorem SourceMap.Points.shows (h : sources.Points span) : sources.Shows span := by
  obtain ⟨file, hget, hlies⟩ := h
  obtain ⟨piece, hpiece⟩ := hlies.start.exists_slice? hlies.stop hlies.ordered
  obtain ⟨_, _, _, _, hstop⟩ := Text.slice?_eq_some_iff.1 hpiece
  refine ⟨⟨file, hget, hlies.ordered, hlies.stop.le, hlies.start, hlies.stop⟩,
    Nat.add_sub_cancel' hlies.ordered, ⟨String.ofList piece, ?_, ?_⟩,
    ⟨⟨file.name, (file.lineColumn span.start).1, (file.lineColumn span.start).2, span.start,
      span.length⟩, ?_, rfl, rfl⟩⟩
  · simp only [SourceMap.snippet?, hget, hpiece, Option.bind_eq_bind, Option.bind_some]
    rfl
  · rw [String.toList_ofList, Span.length, hstop, Nat.add_sub_cancel_left]
  · simp only [SourceMap.location?, hget, Option.bind_eq_bind, Option.bind_some]
    rfl

/-- A text that is registered gets an id, also when there are no more ids. -/
theorem SourceMap.index_insert_lt (sources : SourceMap) (name : String) (path : Option Path)
    (text : String) :
    (sources.insert name path text).1.index < (sources.insert name path text).2.size := by
  rw [(sources.adds_insert name path text).size]
  exact Nat.lt_succ_of_le (Nat.min_le_left ..)

/-- Offsets can count the bytes of every source. -/
def SourceMap.Countable (sources : SourceMap) : Prop :=
  ∀ id, Text.width (sources.text id).toList ≤ maxOffset

/-- The sources stay countable with one more that is. -/
theorem SourceMap.Countable.insert (h : sources.Countable) (name : String) (path : Option Path)
    (hw : Text.width text.toList ≤ maxOffset) :
    (sources.insert name path text).2.Countable := by
  intro id
  have hget : (sources.insert name path text).2.get? id =
      if id.index = sources.size then some (.ofText (.ofNat sources.size) name path text)
      else sources.get? id := Array.getElem?_push
  rw [SourceMap.text, hget]
  split
  · next file hfile =>
    split at hfile
    · rw [← Option.some.inj hfile]
      exact hw
    · have := h id
      rw [SourceMap.text, hfile] at this
      exact this
  · exact Nat.zero_le _

end

/-! ## Trees -/

namespace Tree

section
variable {tree marked other grafted : Tree} {target : NodeId} {span : Span}

/-- A node that changes its kind keeps its span. -/
theorem spans_modify (tree : Tree) (index : Nat) (kind : NodeKind NodeId) :
    Tree.spans { tree with nodes := tree.nodes.modify index fun node => { node with kind } } =
      tree.spans := by
  unfold spans
  refine congrArg (· ++ tree.comments) (List.ext_getElem? fun place => ?_)
  rw [List.getElem?_map, List.getElem?_map, Array.getElem?_toList, Array.getElem?_toList,
    Array.getElem?_modify]
  split
  · rw [Option.map_map]
    rfl
  · rfl

/-- A mark leaves the spans as they are. -/
theorem spans_markIncludeError (h : tree.markIncludeError target = .ok marked) :
    marked.spans = tree.spans := by
  unfold markIncludeError at h
  split at h
  · next path _ =>
    obtain rfl := Except.ok.inj h
    exact spans_modify tree target.index (.includeError path)
  · cases h
  · obtain rfl := Except.ok.inj h
    rfl
  · cases h

/-- A graft makes no new spans. -/
theorem spans_graft (h : tree.graft target other = .ok grafted) (hs : span ∈ grafted.spans) :
    span ∈ tree.spans ∨ span ∈ other.spans := by
  unfold graft at h
  split at h
  · cases h
  split at h
  · next path _ =>
    obtain rfl := Except.ok.inj h
    have hmodify := tree.spans_modify target.index
      (.includeFile path (other.items.map (shift tree.size other.root.index)))
    rw [← hmodify]
    simp only [spans, Array.toList_append, List.map_append, List.mem_append] at hs ⊢
    rcases hs with (hs | hs) | hs | hs
    · exact .inl (.inl hs)
    · refine .inr (.inl ?_)
      obtain ⟨node, hn, rfl⟩ := List.mem_map.1 hs
      rw [shifted, Array.toList_map, Array.toList_eraseIdxIfInBounds] at hn
      obtain ⟨copied, hc, rfl⟩ := List.mem_map.1 hn
      exact List.mem_map.2 ⟨copied, List.mem_of_mem_eraseIdx hc, rfl⟩
    · exact .inl (.inr hs)
    · exact .inr (.inr hs)
  all_goals cases h

/-- The span of a node is one of the tree. -/
theorem mem_spans_of_node? {id : NodeId} {node : Node} (h : tree.node? id = some node) :
    node.span ∈ tree.spans :=
  List.mem_append_left _ (List.mem_map_of_mem (List.mem_iff_getElem?.2 ⟨id.index, by
    rw [Array.getElem?_toList]
    exact h⟩))

end

end Tree

/-! ## Programs -/

namespace Program

/-- Every span of a program points at a registered source. -/
structure Pointed (program : Program) : Prop where
  countable : program.sources.Countable
  trees : ∀ id tree, program.tree? id = some tree → ∀ span ∈ tree.spans, program.sources.Points span
  edges : ∀ edge ∈ program.graph.edges, program.sources.Points edge.span
  reports : ∀ diagnostic ∈ program.diagnostics.items, ∀ span ∈ diagnostic.spans,
    program.sources.Points span

section
variable {program after : Program} {sources : SourceMap} {entry id : SourceId}
  {edge : Inclusion} {diagnostic : Diagnostic} {tree : Tree}

/-- More sources can be registered. -/
theorem Pointed.within (h : program.Pointed) (hw : Within program.sources sources)
    (hc : sources.Countable) : Pointed { program with sources } where
  countable := hc
  trees := fun id tree ht span hs => (h.trees id tree ht span hs).within hw
  edges := fun edge he => (h.edges edge he).within hw
  reports := fun diagnostic hd span hs => (h.reports diagnostic hd span hs).within hw

/-- More can be reported. -/
theorem Pointed.append (h : program.Pointed) {more : List Diagnostic}
    (hm : ∀ diagnostic ∈ more, ∀ span ∈ diagnostic.spans, program.sources.Points span) :
    Pointed { program with diagnostics := program.diagnostics.append more } :=
  { h with
    reports := fun diagnostic hd =>
      (List.mem_append.1 hd).elim (h.reports diagnostic) (hm diagnostic) }

/-- A report at one span that points at a source. -/
theorem Pointed.report (h : program.Pointed)
    (hd : ∀ span ∈ diagnostic.spans, program.sources.Points span) :
    (program.report diagnostic).Pointed :=
  h.append fun _ hm => List.mem_singleton.1 hm ▸ hd

/-- An edge that points is added. -/
theorem Pointed.addInclude (h : program.Pointed) (he : program.sources.Points edge.span) :
    Pointed { program with graph := program.graph.addInclude edge } :=
  { h with
    edges := fun other ho => by
      have hedges : ((program.graph.addFile edge.includer).addFile edge.included).edges =
          program.graph.edges := by
        unfold IncludeGraph.addFile
        split <;> split <;> rfl
      rw [IncludeGraph.addInclude, hedges] at ho
      rcases Array.mem_push.1 ho with ho | rfl
      · exact h.edges other ho
      · exact he }

/-- So is a tree all of whose spans do. -/
theorem Pointed.setTree (h : program.Pointed)
    (ht : ∀ span ∈ tree.spans, program.sources.Points span) : (program.setTree id tree).Pointed :=
  { h with
    trees := fun other part hpart => by
      rw [tree?_setTree] at hpart
      split at hpart
      · obtain ⟨_, -, rfl⟩ := Option.map_eq_some_iff.1 hpart
        exact ht
      · exact h.trees other part hpart }

/-! ### Assembling -/

/-- What each step of a loop keeps, the loop keeps. -/
theorem kept_of_foldlM {ε σ α : Type} {step : σ → α → Except ε σ} (kept : σ → Prop)
    {items : List α} {state last : σ}
    (hstep : ∀ state item last, item ∈ items → step state item = .ok last → kept state → kept last)
    (h : items.foldlM step state = .ok last) (hk : kept state) : kept last := by
  induction items generalizing state with
  | nil => exact Except.ok.inj h ▸ hk
  | cons item items ih =>
    rw [List.foldlM_cons] at h
    cases hitem : step state item with
    | error failure =>
      rw [hitem] at h
      cases h
    | ok middle =>
      rw [hitem] at h
      exact ih (fun _ _ _ hm => hstep _ _ _ (List.mem_cons_of_mem _ hm)) h
        (hstep _ _ _ List.mem_cons_self hitem hk)

/-- Cutting an include statement reports it where its edge is. -/
theorem Pointed.cutInclude (h : program.Pointed) (he : edge ∈ program.graph.edges)
    (hcut : program.cutInclude edge = .ok after) :
    after.Pointed ∧ after.graph = program.graph ∧ after.sources = program.sources := by
  unfold Program.cutInclude at hcut
  split at hcut
  · exact Except.ok.inj hcut ▸ ⟨h, rfl, rfl⟩
  · next tree ht =>
    split at hcut
    · next name _ _ =>
      cases hmark : tree.markIncludeError edge.node with
      | error fault =>
        rw [hmark] at hcut
        cases hcut
      | ok marked =>
        rw [hmark] at hcut
        obtain rfl := Except.ok.inj hcut
        refine ⟨Pointed.setTree ?_ ?_, rfl, rfl⟩
        · exact h.report fun span hs => List.mem_singleton.1 hs ▸ h.edges edge he
        · rw [Tree.spans_markIncludeError hmark]
          exact h.trees _ tree ht
    · exact Except.ok.inj hcut ▸ ⟨h, rfl, rfl⟩
    · cases hcut

/-- Cutting cycles keeps all spans where they are. -/
theorem Pointed.cutCycles (h : program.Pointed) (hcut : program.cutCycles entry = .ok after) :
    after.Pointed ∧ after.graph = program.graph ∧ after.sources = program.sources := by
  refine kept_of_foldlM (fun middle =>
      middle.Pointed ∧ middle.graph = program.graph ∧ middle.sources = program.sources)
    (fun middle edge last hm hstep hk => ?_) hcut ⟨h, rfl, rfl⟩
  obtain ⟨hpointed, hgraph, hsources⟩ := hk
  obtain ⟨index, -, hindex⟩ := List.mem_filterMap.1 hm
  have hedge : edge ∈ middle.graph.edges := hgraph ▸ Array.mem_of_getElem? hindex
  obtain ⟨hlast, hgraph', hsources'⟩ := hpointed.cutInclude hedge hstep
  exact ⟨hlast, hgraph'.trans hgraph, hsources'.trans hsources⟩

/-- The check of the version changes no source. -/
theorem sources_checkVersion (program : Program) (entry : SourceId) :
    (program.checkVersion entry).sources = program.sources := by
  unfold Program.checkVersion
  split
  · rfl
  · split <;> rfl

/-- The version of a program is checked where it stands, or where the entry begins. -/
theorem Pointed.checkVersion (h : program.Pointed) (he : entry.index < program.sources.size) :
    (program.checkVersion entry).Pointed := by
  unfold Program.checkVersion
  split
  · refine h.report fun span hs => ?_
    rw [List.mem_singleton.1 hs]
    exact SourceMap.points_start he rfl
      ⟨Nat.le_refl _, Text.isBoundary_zero _, Text.isBoundary_zero _⟩
  · next version span hversion =>
    split
    · exact h
    · refine h.report fun other ho => ?_
      rw [List.mem_singleton.1 ho]
      unfold leadingVersion? at hversion
      simp only [Option.bind_eq_bind, Option.bind_eq_some_iff] at hversion
      obtain ⟨tree, ht, item, -, node, hn, hkind⟩ := hversion
      split at hkind
      · obtain ⟨-, rfl⟩ := Prod.mk.inj (Option.some.inj hkind)
        exact h.trees entry tree ht _ (Tree.mem_spans_of_node? hn)
      · cases hkind

/-- The span of what a statement declares is the one of a node. -/
theorem mem_spans_of_declared? {item : NodeId} {name : String} {span : Span}
    (h : declared? tree item = some (name, span)) : span ∈ tree.spans := by
  unfold declared? at h
  simp only [Option.bind_eq_bind, Option.bind_eq_some_iff] at h
  obtain ⟨_, -, id, -, node, hn, hkind⟩ := h
  split at hkind
  · obtain ⟨-, rfl⟩ := Prod.mk.inj (Option.some.inj hkind)
    exact Tree.mem_spans_of_node? hn
  · cases hkind

/-- What is declared in a program is declared in one of its trees. -/
theorem Lists.exists_tree {source : SourceId} {items : List NodeId}
    {visited visited' : List SourceId} {declarations : List (String × Span)}
    (h : program.Lists source items visited declarations visited') :
    ∀ declaration ∈ declarations, ∃ id tree, program.tree? id = some tree ∧
      declaration.2 ∈ tree.spans := by
  induction h with
  | done => exact nofun
  | follow _ _ _ _ _ _ ih ih' =>
    exact fun declaration hm => (List.mem_append.1 hm).elim (ih declaration) (ih' declaration)
  | pass _ _ _ _ ih => exact ih
  | @statement source tree _ _ _ _ _ ht _ _ ih =>
    intro declaration hm
    obtain hm | hm := List.mem_append.1 hm
    · exact ⟨source, tree, ht, mem_spans_of_declared? (Option.mem_toList.1 hm)⟩
    · exact ih declaration hm

/-- What is reported of a name points at its declarations. -/
theorem spans_redeclaration {declarations : List (String × Span)} {declaration : String × Span}
    {diagnostic : Diagnostic} (hm : declaration ∈ declarations)
    (h : redeclaration? declarations declaration = some diagnostic) :
    ∀ span ∈ diagnostic.spans, ∃ other ∈ declarations, other.2 = span := by
  obtain ⟨name, span⟩ := declaration
  simp only [redeclaration?] at h
  split at h
  · next first hlookup =>
    split at h
    · cases h
    · cases h
      intro other ho
      have hspans : other = span ∨ other = first := by
        simpa [Grammar.redeclared, Diagnostic.spans] using ho
      obtain rfl | rfl := hspans
      · exact ⟨_, hm, rfl⟩
      · exact ⟨_, Grammar.Cuts.mem_of_lookup hlookup, rfl⟩
  · cases h

/-- What the check of the declarations reports points. -/
theorem Pointed.checkDeclarations (h : program.Pointed) (entry : SourceId) :
    (program.checkDeclarations entry).Pointed := by
  obtain ⟨declarations, hdeclares⟩ := program.exists_declares entry
  rw [hdeclares.checkDeclarations]
  refine h.append fun diagnostic hd span hs => ?_
  obtain ⟨declaration, hm, hd⟩ := List.mem_filterMap.1 hd
  obtain ⟨other, ho, rfl⟩ := spans_redeclaration hm hd span hs
  obtain ⟨visited, hlists⟩ := hdeclares
  obtain ⟨id, tree, ht, hspan⟩ := hlists.exists_tree other ho
  exact h.trees id tree ht _ hspan

/-- All spans of merged trees point at registered sources. -/
def PointedMerged (sources : SourceMap) (merged : Merged) : Prop :=
  ∀ source tree, merged.lookup source = some tree → ∀ span ∈ tree.spans, sources.Points span

/-- Going through an include statement makes no new spans. -/
theorem points_graftInclude {merged : Merged} {grafted : Tree} (hm : PointedMerged sources merged)
    (ht : ∀ span ∈ tree.spans, sources.Points span)
    (hgraft : graftInclude merged tree edge = .ok grafted) :
    ∀ span ∈ grafted.spans, sources.Points span := by
  unfold graftInclude at hgraft
  split at hgraft
  · split at hgraft
    · next included hlookup =>
      intro span hs
      exact (Tree.spans_graft hgraft hs).elim (ht span) (hm _ included hlookup span)
    · rwa [Tree.spans_markIncludeError hgraft]
  · exact Except.ok.inj hgraft ▸ ht
  · cases hgraft

/-- The trees merged so far point when another one is merged. -/
theorem Pointed.mergeSource {merged last : Merged} {source : SourceId} (h : program.Pointed)
    (hm : PointedMerged program.sources merged)
    (hmerge : program.mergeSource merged source = .ok last) :
    PointedMerged program.sources last := by
  unfold Program.mergeSource at hmerge
  split at hmerge
  · exact Except.ok.inj hmerge ▸ hm
  · next tree ht =>
    cases hfold : (program.graph.includesOf source).foldlM (graftInclude merged) tree with
    | error fault =>
      rw [hfold] at hmerge
      cases hmerge
    | ok part =>
      rw [hfold] at hmerge
      obtain rfl := Except.ok.inj hmerge
      intro file other hlookup
      rw [lookup_cons] at hlookup
      split at hlookup
      · obtain rfl := Option.some.inj hlookup
        exact kept_of_foldlM (fun tree => ∀ span ∈ tree.spans, program.sources.Points span)
          (fun _ _ _ _ hstep hk => points_graftInclude hm hk hstep) hfold (h.trees source tree ht)
      · exact hm file other hlookup

/-- So does the whole. -/
theorem Pointed.merge? (h : program.Pointed) (hmerge : program.merge? entry = .ok (some tree)) :
    ∀ span ∈ tree.spans, program.sources.Points span := by
  unfold Program.merge? at hmerge
  cases hfold : (program.graph.mergeOrder entry []).foldlM program.mergeSource [] with
  | error fault =>
    rw [hfold] at hmerge
    cases hmerge
  | ok merged =>
    rw [hfold] at hmerge
    have hpointed : PointedMerged program.sources merged :=
      kept_of_foldlM _ (fun _ _ _ _ hstep hk => h.mergeSource hk hstep) hfold
        fun _ _ hm => nomatch hm
    exact hpointed entry tree (Except.ok.inj hmerge)

end

end Program

/-- All spans of a compilation: those of its tree, of what is reported and of the include
statements. -/
def Compilation.spans (compilation : Compilation) : List Span :=
  compilation.tree.spans ++ compilation.diagnostics.flatMap Diagnostic.spans ++
    compilation.includes.edges.toList.map Inclusion.span

namespace Program

section
variable {program : Program} {entry : SourceId} {settings : Settings} {compilation : Compilation}

/-- What is shown of a program points where its reports do, also the note on the limit. -/
theorem Pointed.finish (h : program.Pointed) (limit : Nat) :
    ∀ diagnostic ∈ program.diagnostics.finish limit, ∀ span ∈ diagnostic.spans,
      program.sources.Points span := by
  intro diagnostic hd span hs
  rcases Diagnostics.mem_or_limitNote hd with hd | ⟨other, ho, dropped, rfl⟩
  · exact h.reports diagnostic hd span hs
  · rw [List.mem_singleton.1 hs]
    exact h.reports other ho _ List.mem_cons_self

/-- A compilation is made of a program whose cycles are cut and whose checks are made. Its tree is
the merged one, or that of an empty text. -/
theorem exists_of_assemble (ha : program.assemble settings entry = .ok compilation) :
    ∃ middle checked, program.cutCycles entry = .ok middle ∧
      (middle.checkVersion entry).checkDeclarations entry = checked ∧
      (checked.merge? entry = .ok (some compilation.tree) ∨
        ∃ output, parse entry [] (settings.parseOptions none) = .ok output ∧
          output.tree = compilation.tree) ∧
      compilation.diagnostics = checked.diagnostics.finish settings.errorLimit ∧
      compilation.sources = checked.sources ∧ compilation.includes = checked.graph := by
  unfold Program.assemble at ha
  cases hcut : program.cutCycles entry with
  | error fault =>
    rw [hcut] at ha
    cases ha
  | ok middle =>
    rw [hcut] at ha
    dsimp only [Except.mapError, bind, Except.bind] at ha
    refine ⟨middle, _, rfl, rfl, ?_⟩
    cases hmerge : ((middle.checkVersion entry).checkDeclarations entry).merge? entry with
    | error fault =>
      rw [hmerge] at ha
      cases ha
    | ok merged =>
      rw [hmerge] at ha
      cases merged with
      | some tree =>
        obtain rfl := Except.ok.inj ha
        exact ⟨.inl rfl, rfl, rfl, rfl⟩
      | none =>
        cases hparse : parse entry [] (settings.parseOptions none) with
        | error crash =>
          rw [hparse] at ha
          cases ha
        | ok output =>
          rw [hparse] at ha
          obtain rfl := Except.ok.inj ha
          exact ⟨.inr ⟨output, rfl, rfl⟩, rfl, rfl, rfl⟩

/-- All spans of a compilation point at its sources if those of the program do. -/
theorem Pointed.assemble (h : program.Pointed) (he : entry.index < program.sources.size)
    (ha : program.assemble settings entry = .ok compilation) :
    ∀ span ∈ compilation.spans, compilation.sources.Points span := by
  obtain ⟨middle, checked, hcut, rfl, htree, hd, hsources, hincludes⟩ := exists_of_assemble ha
  obtain ⟨hmiddle, -, hmiddle'⟩ := h.cutCycles hcut
  have hid : entry.index < middle.sources.size := hmiddle' ▸ he
  have hchecked := (hmiddle.checkVersion hid).checkDeclarations entry
  have hid' : entry.index < ((middle.checkVersion entry).checkDeclarations entry).sources.size :=
    (sources_checkVersion middle entry).symm ▸ hid
  intro span hs
  rw [hsources]
  rcases List.mem_append.1 hs with hs | hs
  · rcases List.mem_append.1 hs with hs | hs
    · rcases htree with htree | ⟨output, hparse, htree⟩
      · exact hchecked.merge? htree span hs
      · rw [← htree] at hs
        obtain ⟨hsource, hlies⟩ :=
          Grammar.parse_spans (Nat.zero_le _) hparse span (List.mem_append_left _ hs)
        exact SourceMap.points_start hid' hsource hlies
    · obtain ⟨diagnostic, hm, hs⟩ := List.mem_flatMap.1 hs
      exact hchecked.finish _ diagnostic (hd ▸ hm) span hs
  · obtain ⟨edge, he, rfl⟩ := List.mem_map.1 hs
    exact hchecked.edges edge (hincludes ▸ Array.mem_toList_iff.1 he)

end

end Program

/-! ## Loading -/

namespace Loading

section
variable {disk : Disk Id} {settings : Settings} {directory : Option Path} {path : Path}
  {entry source : SourceId} {loading after : Loading} {version : Option Version}
  {wave found : List SourceId}

/-- All spans of a parse of a registered source point at it. -/
theorem points_parse {sources : SourceMap} {options : ParseOptions} {output : ParseOutput}
    (hc : sources.Countable) (hid : source.index < sources.size)
    (h : parse source (sources.text source).toList options = .ok output) :
    ∀ span ∈ output.spans, sources.Points span := by
  intro span hs
  obtain ⟨rfl, hlies⟩ := Grammar.parse_spans (hc source) h span hs
  obtain ⟨file, hget⟩ := SourceMap.exists_get? hid
  rw [SourceMap.text, hget] at hlies
  exact ⟨file, hget, hlies⟩

/-- Opening an include registers a source at most. -/
theorem pointed_of_open? {name : String} {opened : Option (SourceId × Bool)}
    (h : (open? disk settings directory name loading).run = .ok (opened, after))
    (hp : loading.toProgram.Pointed) : after.toProgram.Pointed ∧
      ∀ target, opened = some (target, true) → target.index < after.sources.size := by
  have hwithin : Within loading.sources after.sources :=
    (open?_grows h : Grows disk ⟨""⟩ loading after).within
  unfold open? at h
  obtain ⟨resolution, hresolve, h⟩ := exists_of_bind_ok h
  obtain rfl : Id.run (settings.search.resolve disk directory name) = resolution :=
    Except.ok.inj hresolve
  cases hfound : Id.run (settings.search.resolve disk directory name) with
  | notFound =>
    rw [hfound] at h
    cases h
    exact ⟨hp, nofun⟩
  | file file =>
    rw [hfound] at h
    dsimp only at h
    split at h
    · cases h
      exact ⟨hp, nofun⟩
    · obtain ⟨text, hread, h⟩ := exists_of_bind_ok h
      cases h
      refine ⟨hp.within hwithin (hp.countable.insert _ _ (width_of_readText hread)), ?_⟩
      rintro target ⟨⟩
      exact loading.sources.index_insert_lt file.text (some file) text
  | library library =>
    rw [hfound] at h
    dsimp only at h
    split at h
    · cases h
      exact ⟨hp, nofun⟩
    · cases h
      have hfind := width_library (find?_of_resolve hfound)
      refine ⟨hp.within hwithin (hp.countable.insert _ _ hfind), ?_⟩
      rintro target ⟨⟩
      exact loading.sources.index_insert_lt s!"<builtin>/{library.name}" none library.text

/-- All spans point at sources while the includes of a source are followed, with some of its
statements ahead. -/
structure Following.Pointed (rest : List (NodeId × String × Span)) (following : Following) :
    Prop where
  loading : following.loading.toProgram.Pointed
  tree : ∀ span ∈ following.tree.spans, following.loading.sources.Points span
  ahead : ∀ statement ∈ rest, following.loading.sources.Points statement.2.2
  found : ∀ id ∈ following.found, id.index < following.loading.sources.size

/-- Following a statement adds an edge or a report where the statement is. -/
theorem Following.Pointed.follow {following last : Following} {statement : NodeId × String × Span}
    {rest : List (NodeId × String × Span)} (hp : Pointed (statement :: rest) following)
    (h : (follow disk settings directory source following statement).run = .ok last) :
    Pointed rest last := by
  have hwithin : Within following.loading.sources last.loading.sources :=
    (follow_grows h : Grows disk ⟨""⟩ following.loading last.loading).within
  have htree := fun span hs => (hp.tree span hs).within hwithin
  have hahead := fun other ho => (hp.ahead other (List.mem_cons_of_mem _ ho)).within hwithin
  have hfound := fun id hid => Nat.lt_of_lt_of_le (hp.found id hid) hwithin.size
  have hstatement := (hp.ahead statement List.mem_cons_self).within hwithin
  obtain ⟨node, name, span⟩ := statement
  unfold Loading.follow at h
  obtain ⟨⟨opened, loading⟩, hopen, h⟩ := exists_of_bind_ok h
  obtain ⟨hopened, hnew⟩ := pointed_of_open? hopen hp.loading
  cases opened with
  | some opened =>
    obtain ⟨target, isNew⟩ := opened
    obtain rfl := Except.ok.inj h
    refine ⟨hopened.addInclude hstatement, htree, hahead, fun id hid => ?_⟩
    dsimp only at hid
    split at hid
    · next htrue =>
      rcases List.mem_append.1 hid with hid | hid
      · exact hfound id hid
      · obtain rfl := List.mem_singleton.1 hid
        exact hnew id (htrue ▸ rfl)
    · exact hfound id hid
  | none =>
    dsimp only at h
    split at h
    · next tree hmark =>
      obtain rfl := Except.ok.inj h
      refine ⟨hopened.report fun other ho => ?_, ?_, hahead, hfound⟩
      · rw [List.mem_singleton.1 ho]
        exact hstatement
      · rw [Tree.spans_markIncludeError hmark]
        exact htree
    · cases h

/-- Following the includes of a source keeps all spans at sources. -/
theorem pointed_of_followAll {output : ParseOutput}
    (h : (followAll disk settings loading source output).run = .ok (after, found))
    (hp : loading.toProgram.Pointed) (ho : ∀ span ∈ output.spans, loading.sources.Points span) :
    after.toProgram.Pointed ∧ ∀ id ∈ found, id.index < after.sources.size := by
  unfold followAll at h
  obtain ⟨following, hfold, h⟩ := exists_of_bind_ok h
  cases h
  have hreports : ∀ diagnostic ∈ output.diagnostics, ∀ span ∈ diagnostic.spans,
      loading.sources.Points span := fun diagnostic hd span hs =>
    ho span (List.mem_append_right _ (List.mem_flatMap.2 ⟨diagnostic, hd, hs⟩))
  have htree := fun span hs => ho span (List.mem_append_left _ hs)
  have hend : following.Pointed [] := by
    refine known_of_foldlM Following.Pointed (fun _ _ _ _ hstep hk => hk.follow hstep) hfold
      ⟨hp.append hreports, htree, fun statement hm => ?_, fun _ hid => nomatch hid⟩
    rw [List.append_nil] at hm
    obtain ⟨-, items, hn⟩ := mem_includeStatements.1 hm
    exact htree _ (Tree.mem_spans_of_node? hn)
  refine ⟨{ hend.loading with trees := fun id tree ht => ?_ }, hend.found⟩
  rcases getElem?_concat_iff.1 (by rwa [Program.tree?, ← Array.getElem?_toList,
    Array.toList_push] at ht) with ht | ⟨-, rfl⟩
  · exact hend.loading.trees id tree (by rwa [Program.tree?, ← Array.getElem?_toList])
  · exact hend.tree

/-- All spans point at sources within a wave, with the parses of some of its sources ahead. -/
structure WavePointed (rest : List (SourceId × ParseOutput)) (state : Loading × List SourceId) :
    Prop where
  loading : state.1.toProgram.Pointed
  ahead : ∀ item ∈ rest, ∀ span ∈ item.2.spans, state.1.sources.Points span
  found : ∀ id ∈ state.2, id.index < state.1.sources.size

/-- Loading a wave of registered sources keeps all spans at sources. -/
theorem pointed_of_loadWave
    (h : (loadWave disk settings version loading wave).run = .ok (after, found))
    (hp : loading.toProgram.Pointed) (hwave : ∀ id ∈ wave, id.index < loading.sources.size) :
    after.toProgram.Pointed ∧ ∀ id ∈ found, id.index < after.sources.size := by
  unfold loadWave at h
  obtain ⟨outputs, hparse, hfold⟩ := exists_of_bind_ok h
  have hparse : parseAll settings version loading.sources wave = .ok outputs := hparse
  obtain ⟨rfl, hparsed⟩ := parseAll_ok hparse
  have hend : WavePointed [] (after, found) := by
    refine known_of_foldlM WavePointed (fun state item rest last hstep hk => ?_) hfold
      ⟨hp, fun item hm => ?_, fun _ hid => nomatch hid⟩
    · obtain ⟨⟨next, new⟩, hfollow, hstep⟩ := exists_of_bind_ok hstep
      cases hstep
      have hwithin := (followAll_advances ⟨""⟩ hfollow).1.within
      obtain ⟨hnext, hnew⟩ := pointed_of_followAll hfollow hk.loading
        (hk.ahead _ List.mem_cons_self)
      refine ⟨hnext, fun item hm span hs => ?_, fun id hid => ?_⟩
      · exact (hk.ahead item (List.mem_cons_of_mem _ hm) span hs).within hwithin
      · rcases List.mem_append.1 hid with hid | hid
        · exact Nat.lt_of_lt_of_le (hk.found id hid) hwithin.size
        · exact hnew id hid
    · rw [List.append_nil] at hm
      exact points_parse hp.countable (hwave _ (List.mem_map_of_mem hm)) (hparsed item hm)
  exact ⟨hend.loading, hend.found⟩

/-- All turns of the loop keep all spans at sources. -/
theorem Turns.pointed {stage last : Stage} {waves : List (Option Version × List SourceId)}
    (h : Turns disk settings entry stage waves last) (hp : stage.loading.toProgram.Pointed)
    (hwave : ∀ id ∈ stage.wave, id.index < stage.loading.sources.size) :
    last.loading.toProgram.Pointed ∧
      Within stage.loading.sources last.loading.sources := by
  induction h with
  | stop => exact ⟨hp, .refl _⟩
  | turn _ hload _ ih =>
    obtain ⟨hnext, hfound⟩ := pointed_of_loadWave hload hp hwave
    obtain ⟨hlast, hwithin⟩ := ih hnext hfound
    exact ⟨hlast, (loadWave_advances hload : Advances disk ⟨""⟩ ..).1.within.trans hwithin⟩

/-- All spans of a program that is loaded point at its sources, and its entry is one of these. -/
theorem pointed_of_loadFile {program : Program}
    (h : (loadFile disk settings path).run = .ok program) :
    program.Pointed ∧ 0 < program.sources.size := by
  obtain ⟨text, loading, hfresh, -, hload⟩ := exists_of_loadFile h
  obtain ⟨waves, last, hturns, rfl, -⟩ := turns_of_load hload
  have hsize : 0 < loading.sources.size := hfresh.registers.size ▸ Nat.zero_lt_one
  have hstart : (Stage.first loading).loading.toProgram.Pointed :=
    { countable := fun id => by
        by_cases hid : id.index < loading.sources.size
        · exact hfresh.registers.width_text hid
        · have hnone : loading.sources.get? id = none :=
            Array.getElem?_eq_none (Nat.le_of_not_lt hid)
          show Text.width (loading.sources.text id).toList ≤ maxOffset
          rw [SourceMap.text, hnone]
          exact Nat.zero_le _
      trees := fun id tree ht => by
        rw [Program.tree?, Stage.first, hfresh.trees] at ht
        cases ht
      edges := fun edge he => by
        rw [Stage.first, hfresh.graph] at he
        exact absurd he (Array.not_mem_empty edge)
      reports := fun diagnostic hd => by
        rw [Stage.first, hfresh.diagnostics] at hd
        cases hd }
  obtain ⟨hlast, hwithin⟩ := Turns.pointed hturns hstart fun id hid => by
    obtain rfl := List.mem_singleton.1 hid
    exact hsize
  exact ⟨hlast, Nat.lt_of_lt_of_le hsize hwithin.size⟩

end

end Loading

/-- Every span of a compilation can be shown. -/
theorem compile_shows {disk : Disk Id} {settings : Settings} {path : Path}
    {compilation : Compilation} (h : (compile disk settings path).run = .ok compilation) :
    ∀ span ∈ compilation.spans, compilation.sources.Shows span := by
  rw [Loading.compile_run] at h
  cases hload : (Loading.loadFile disk settings path).run with
  | error failure =>
    rw [hload] at h
    cases h
  | ok program =>
    rw [hload] at h
    dsimp only at h
    obtain ⟨hpointed, hpos⟩ := Loading.pointed_of_loadFile hload
    cases hassemble : program.assemble settings ⟨0⟩ with
    | error crash =>
      rw [hassemble] at h
      cases h
    | ok made =>
      rw [hassemble] at h
      obtain rfl := Except.ok.inj h
      exact fun span hs => (hpointed.assemble hpos hassemble span hs).shows

/-- The include statement of a program of two files is one of the spans that can be shown. -/
theorem compile_shows_oneInclude : ∃ compilation,
    (compile oneInclude.disk {} ⟨"main.qasm"⟩).run = .ok compilation ∧
      ⟨⟨0⟩, 0, 17⟩ ∈ compilation.spans ∧
      ∀ span ∈ compilation.spans, compilation.sources.Shows span := by
  let graph : IncludeGraph := ⟨[⟨0⟩, ⟨1⟩], #[⟨⟨0⟩, ⟨1⟩, ⟨⟨0⟩, 0, 17⟩, ⟨0⟩⟩]⟩
  have hfile : Loading.hasGraph oneInclude.disk {} ⟨"main.qasm"⟩ graph = true := by decide +kernel
  obtain ⟨program, hload, hgraph, hids⟩ := Loading.exists_of_hasGraph hfile
  obtain ⟨compilation, hcompiles, -⟩ := Loading.exists_compilesTo rfl hload hids
  have hincludes : compilation.includes = graph := hcompiles.includes.trans hgraph
  refine ⟨compilation, hcompiles.compiled, List.mem_append_right _ ?_,
    compile_shows hcompiles.compiled⟩
  rw [hincludes]
  exact List.mem_singleton_self _

end OpenQasm
