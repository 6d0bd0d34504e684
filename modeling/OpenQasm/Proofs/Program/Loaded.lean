import OpenQasm.Proofs.Program.Loading

/-!
# What loading leaves behind

When all sources have been read and all their include statements have been followed, the log tells
what the program is: which sources there are, which statement each edge stems from, and which
statements are marked and reported.
-/

namespace OpenQasm

/-- A program whose sources have been parsed and whose include statements lead where they should.
The tree of a source is its parse with the statements marked that lead nowhere; every edge leads
from an include statement to a source with the text of what it names. -/
structure Program.Resolved (disk : Disk Id) (settings : Settings) (program : Program) : Prop where
  parsed : ∀ source tree, program.tree? source = some tree →
    ∃ output, Loading.IsParsed settings program.sources source output ∧
      Tree.Marks output.tree tree
        (Loading.Unresolved disk settings program.sources source output.tree)
  leads : ∀ index edge, program.graph.edge? index = some edge →
    ∃ tree name, program.tree? edge.includer = some tree ∧
      tree.node? edge.node = some ⟨.includeFile name [], edge.span⟩ ∧
      Loading.Leads disk program.sources
        (Loading.resolution disk settings program.sources edge.includer name) edge.included

namespace Loading

open SourceMap (Within)
open OpenQasm.Tree (Marks)

/-! ## Statements and edges -/

section
variable {log : List Followed} {outputs : List ParseOutput}

/-- A statement is told by its source and its node. -/
theorem nodup_statementsFrom (first : Nat) (h : ∀ output ∈ outputs, output.tree.items.Nodup) :
    ((statementsFrom first outputs).map fun statement => (statement.1, statement.2.1)).Nodup := by
  induction outputs generalizing first with
  | nil => exact .nil
  | cons output outputs ih =>
    rw [statementsFrom, List.map_append, List.map_map]
    refine List.nodup_append.2 ⟨?_, ih _ fun other ho => h other (List.mem_cons_of_mem _ ho), ?_⟩
    · have hnodup := nodup_includeStatements (h output List.mem_cons_self)
      rw [← List.nodup_map_iff (f := fun node => ((⟨first⟩ : SourceId), node))
        fun _ _ heq => (Prod.mk.inj heq).2, List.map_map] at hnodup
      exact hnodup
    · intro left hl right hr heq
      obtain ⟨_, -, rfl⟩ := List.mem_map.1 hl
      obtain ⟨⟨source, statement⟩, hm, rfl⟩ := List.mem_map.1 hr
      obtain ⟨_, hle, -⟩ := mem_statementsFrom.1 hm
      have hindex : first = source.index := congrArg (fun key => key.1.index) heq
      omega

/-- The statements of the edges are among those of the log, in the same order. -/
theorem edges_sublist (log : List Followed) :
    ((log.filterMap Followed.edge?).map fun edge => (edge.includer, edge.node)).Sublist
      (log.map fun followed => (followed.source, followed.node)) := by
  induction log with
  | nil => exact .slnil
  | cons followed log ih =>
    obtain ⟨source, node, name, span, target⟩ := followed
    cases target with
    | none => exact ih.cons _
    | some target => exact ih.cons_cons _

/-- The edges of a log are those of its includes that lead somewhere. -/
theorem mem_filterMap_edge? {edge : Inclusion} : edge ∈ log.filterMap Followed.edge? ↔
    ∃ name, ⟨edge.includer, edge.node, name, edge.span, some edge.included⟩ ∈ log := by
  rw [List.mem_filterMap]
  constructor
  · rintro ⟨⟨source, node, name, span, target⟩, hm, hedge⟩
    cases target with
    | none => cases hedge
    | some target =>
      cases hedge
      exact ⟨name, hm⟩
  · rintro ⟨name, hm⟩
    exact ⟨_, hm, rfl⟩

end

/-! ## The end of a history -/

/-- All sources of a program have been read, and all their statements followed. -/
structure Ended (disk : Disk Id) (settings : Settings) (path : Path) (loading : Loading)
    (reads : List (ParseOutput × Tree)) (origins : List Resolution) (log : List Followed) : Prop
    extends History disk settings path loading reads origins log [] where
  trees : loading.trees.toList = reads.map Prod.snd
  all : reads.length = loading.sources.size

section
variable {disk : Disk Id} {settings : Settings} {path : Path} {loading : Loading}
  {reads : List (ParseOutput × Tree)} {origins : List Resolution} {log : List Followed}
  {source : SourceId} {output : ParseOutput} {tree : Tree} {followed : Followed} {node : NodeId}
  {name : String} {span : Span} {edge : Inclusion}

/-- The loop over the waves ends when all sources have been read. -/
theorem Stage.Ready.ended {stage : Stage} (h : stage.Ready disk settings path)
    (hnone : stage.wave = []) : ∃ reads origins log,
      Ended disk settings path stage.loading reads origins log := by
  obtain ⟨reads, origins, log, htrees, hhistory⟩ := h.waiting.between
  refine ⟨reads, origins, log, { hhistory with trees := htrees, all := ?_ }⟩
  have hcount := h.waiting.count
  rw [hnone, List.length_nil, Nat.add_zero] at hcount
  rw [← hcount, ← Array.length_toList, htrees, List.length_map]

/-- The tree of a source is the one that was read for it. -/
theorem Ended.tree?_iff (h : Ended disk settings path loading reads origins log) :
    loading.tree? source = some tree ↔ ∃ output, reads[source.index]? = some (output, tree) := by
  rw [Program.tree?, ← Array.getElem?_toList, h.trees, List.getElem?_map, Option.map_eq_some_iff]
  constructor
  · rintro ⟨⟨output, _⟩, hread, rfl⟩
    exact ⟨output, hread⟩
  · rintro ⟨output, hread⟩
    exact ⟨_, hread, rfl⟩

/-- What was read for it is its parse. -/
theorem Ended.parsesTo (h : Ended disk settings path loading reads origins log)
    (hread : reads[source.index]? = some (output, tree)) :
    ParsesTo settings loading.sources source output := h.read.parsed source output tree hread

/-- What has been followed are the include statements of all sources. -/
theorem Ended.mem_log_iff (h : Ended disk settings path loading reads origins log) :
    (∃ target, ⟨source, node, name, span, target⟩ ∈ log) ↔
      ∃ output tree, reads[source.index]? = some (output, tree) ∧
        (node, name, span) ∈ includeStatements output.tree := by
  constructor
  · rintro ⟨target, hm⟩
    exact h.read.of_mem hm
  · rintro ⟨output, tree, hread, hstatement⟩
    have hmem : (source, node, name, span) ∈ log.map Followed.statement := by
      have hlog := h.read.log
      rw [List.append_nil] at hlog
      rw [hlog, mem_statementsFrom]
      refine ⟨output, Nat.zero_le _, ?_, hstatement⟩
      rw [Nat.sub_zero, List.getElem?_map, hread]
      rfl
    obtain ⟨followed, hm, heq⟩ := List.mem_map.1 hmem
    cases heq
    exact ⟨followed.target, hm⟩

/-- A statement has been followed once. -/
theorem Ended.nodup (h : Ended disk settings path loading reads origins log) :
    (log.map fun followed => (followed.source, followed.node)).Nodup := by
  have hlog := h.read.log
  rw [List.append_nil] at hlog
  have hitems : ∀ output ∈ reads.map Prod.fst, output.tree.items.Nodup := fun output ho => by
    obtain ⟨⟨_, tree⟩, hm, rfl⟩ := List.mem_map.1 ho
    obtain ⟨index, hread⟩ := List.mem_iff_getElem?.1 hm
    exact (h.read.parsed ⟨index⟩ _ tree hread).isParsed.grounded.nodup
  have hnodup := nodup_statementsFrom 0 hitems
  rw [← hlog, List.map_map] at hnodup
  exact hnodup

/-- A statement led nowhere if and only if its name is resolved to nothing. -/
theorem Ended.target_eq_none_iff (h : Ended disk settings path loading reads origins log)
    (hm : followed ∈ log) : followed.target = none ↔
      resolution disk settings loading.sources followed.source followed.name = .notFound := by
  obtain ⟨-, hsettled⟩ := h.logged.settled followed hm
  cases htarget : followed.target with
  | none =>
    rw [htarget] at hsettled
    exact iff_of_true rfl hsettled
  | some target =>
    rw [htarget] at hsettled
    exact iff_of_false nofun (h.registers.ne_notFound (List.mem_of_getElem? hsettled))

/-- The statements that are marked are those that lead nowhere. -/
theorem Ended.marks (h : Ended disk settings path loading reads origins log)
    (hread : reads[source.index]? = some (output, tree)) :
    Marks output.tree tree (Unresolved disk settings loading.sources source output.tree) := by
  refine (h.read.marked source output tree hread).congr fun id => ?_
  constructor
  · rintro ⟨⟨source, node, name, span, target⟩, hm, rfl, hnone, rfl⟩
    obtain ⟨output', tree', hread', hstatement⟩ := h.mem_log_iff.1 ⟨target, hm⟩
    cases hread.symm.trans hread'
    have hnode := (h.parsesTo hread).isParsed.node?_of_mem hstatement
    exact ⟨name, span, (mem_includeStatements.1 hstatement).1, hnode,
      (h.target_eq_none_iff hm).1 hnone⟩
  · rintro ⟨name, span, hi, hn, hnowhere⟩
    have hstatement : (id, name, span) ∈ includeStatements output.tree :=
      mem_includeStatements.2 ⟨hi, [], hn⟩
    obtain ⟨target, hm⟩ := h.mem_log_iff.2 ⟨output, tree, hread, hstatement⟩
    exact ⟨_, hm, rfl, (h.target_eq_none_iff hm).2 hnowhere, rfl⟩

/-- The edges are the statements that led to a source. -/
theorem Ended.mem_edges_iff (h : Ended disk settings path loading reads origins log) :
    edge ∈ loading.graph.edges.toList ↔ ∃ name output tree,
      reads[edge.includer.index]? = some (output, tree) ∧
      (edge.node, name, edge.span) ∈ includeStatements output.tree ∧
      origins[edge.included.index]? =
        some (resolution disk settings loading.sources edge.includer name) := by
  rw [h.logged.edges, mem_filterMap_edge?]
  constructor
  · rintro ⟨name, hm⟩
    obtain ⟨output, tree, hread, hstatement⟩ := h.mem_log_iff.1 ⟨_, hm⟩
    exact ⟨name, output, tree, hread, hstatement, (h.logged.settled _ hm).2⟩
  · rintro ⟨name, output, tree, hread, hstatement, horigin⟩
    obtain ⟨target, hm⟩ := h.mem_log_iff.2 ⟨output, tree, hread, hstatement⟩
    have hsettled := (h.logged.settled _ hm).2
    cases target with
    | none =>
      have hmem := List.mem_of_getElem? horigin
      exact absurd hsettled (h.registers.ne_notFound hmem)
    | some target =>
      have hindex := h.registers.index_inj hsettled horigin
      exact ⟨name, (show target = edge.included from congrArg SourceId.mk hindex) ▸ hm⟩

/-- Every statement has one edge at most. -/
theorem Ended.nodup_edges (h : Ended disk settings path loading reads origins log) :
    (loading.graph.edges.toList.map fun edge => (edge.includer, edge.node)).Nodup := by
  rw [h.logged.edges]
  exact h.nodup.sublist (edges_sublist log)

/-- A statement that leads to a source stays as it is. -/
theorem Ended.statement_of_edge (h : Ended disk settings path loading reads origins log)
    (he : edge ∈ loading.graph.edges.toList) : ∃ tree name,
      loading.tree? edge.includer = some tree ∧ edge.node ∈ tree.items ∧
      tree.node? edge.node = some ⟨.includeFile name [], edge.span⟩ ∧
      Leads disk loading.sources
        (resolution disk settings loading.sources edge.includer name) edge.included := by
  obtain ⟨name, output, tree, hread, hstatement, horigin⟩ := h.mem_edges_iff.1 he
  have hparsed := (h.parsesTo hread).isParsed
  have hnode := hparsed.node?_of_mem hstatement
  refine ⟨tree, name, h.tree?_iff.2 ⟨output, hread⟩, ?_, ?_,
    (h.registers.holds _ _ horigin).leads⟩
  · rw [hparsed.grounded.items_marks (h.marks hread)]
    exact (mem_includeStatements.1 hstatement).1
  · rw [(h.marks hread).same, hnode]
    rintro ⟨name', span, -, hnode', hnowhere⟩
    cases hnode.symm.trans hnode'
    exact h.registers.ne_notFound (List.mem_of_getElem? horigin) hnowhere

/-- A statement that leads nowhere is reported. -/
theorem Ended.reported (h : Ended disk settings path loading reads origins log)
    (ht : loading.tree? source = some tree)
    (hn : tree.node? node = some ⟨.includeError name, span⟩) :
    notFound settings name span ∈ loading.diagnostics.items := by
  obtain ⟨output, hread⟩ := h.tree?_iff.1 ht
  have hmarks := h.read.marked source output tree hread
  have hparsed := (h.parsesTo hread).isParsed
  by_cases hcut : ∃ followed ∈ log, followed.source = source ∧ followed.target = none ∧
      followed.node = node
  · obtain ⟨path, place, hfile, herror⟩ := hmarks.cut node hcut
    obtain ⟨followed, hm, rfl, htarget, rfl⟩ := hcut
    obtain ⟨output', tree', hread', hstatement⟩ := h.read.of_mem hm
    cases hread.symm.trans hread'
    have hfile' := hparsed.node?_of_mem hstatement
    obtain ⟨rfl, rfl⟩ : followed.name = name ∧ followed.span = span := by
      cases hfile.symm.trans hfile'
      cases hn.symm.trans herror
      exact ⟨rfl, rfl⟩
    have hreport : notFound settings followed.name followed.span ∈
        log.filterMap (·.report? settings) :=
      List.mem_filterMap.2 ⟨followed, hm, by simp [Followed.report?, htarget]⟩
    rw [← h.logged.reports] at hreport
    exact (List.mem_filter.1 hreport).1
  · rw [hmarks.same node hcut] at hn
    cases hparsed.fresh hn fun _ heq => nomatch heq

/-- Whatever is reported is about the text of a source, or an include statement that leads nowhere.
-/
theorem Ended.report_cases (h : Ended disk settings path loading reads origins log)
    {diagnostic : Diagnostic} (hd : diagnostic ∈ loading.diagnostics.items) :
    diagnostic.code.isOfText = true ∨
      ∃ followed ∈ log, followed.target = none ∧
        diagnostic = notFound settings followed.name followed.span := by
  by_cases htext : diagnostic.code.isOfText = true
  · exact .inl htext
  · have hmem : diagnostic ∈ log.filterMap (·.report? settings) :=
      h.logged.reports ▸ List.mem_filter.2 ⟨hd, by simp [htext]⟩
    obtain ⟨⟨_, _, _, _, target⟩, hm, hreport⟩ := List.mem_filterMap.1 hmem
    cases target with
    | none => exact .inr ⟨_, hm, rfl, (Option.some.inj hreport).symm⟩
    | some target => cases hreport

/-- The files of the graph are the registered sources. -/
theorem Ended.mem_files_iff (h : Ended disk settings path loading reads origins log) :
    source ∈ loading.graph.files ↔ source.index < loading.sources.size := by
  rw [h.logged.files, h.registers.size, List.mem_map]
  constructor
  · rintro ⟨index, hi, rfl⟩
    exact List.mem_range.1 hi
  · exact fun hlt => ⟨source.index, List.mem_range.2 hlt, rfl⟩

/-- Each of them has a tree. -/
theorem Ended.exists_tree (h : Ended disk settings path loading reads origins log)
    (hlt : source.index < loading.sources.size) : ∃ tree, loading.tree? source = some tree := by
  have hread := List.getElem?_eq_getElem (h.all ▸ hlt)
  exact ⟨_, h.tree?_iff.2 ⟨_, hread⟩⟩

/-- The program is loaded. -/
theorem Ended.loaded (h : Ended disk settings path loading reads origins log) :
    loading.toProgram.Loaded ⟨0⟩ where
  closed :=
    { nodup := by
        rw [h.logged.files]
        exact List.nodup_range.map fun _ _ heq => congrArg SourceId.index heq
      includer := fun edge he => by
        obtain ⟨_, _, _, hread, -⟩ := h.mem_edges_iff.1 he
        exact h.mem_files_iff.2 (h.all ▸ (List.getElem?_eq_some_iff.1 hread).1)
      included := fun edge he => by
        obtain ⟨_, _, _, -, -, horigin⟩ := h.mem_edges_iff.1 he
        exact h.mem_files_iff.2 (h.registers.index_lt horigin) }
  entry := h.mem_files_iff.2 (h.registers.size ▸ h.registers.length_pos)
  tree := fun file hf => h.exists_tree (h.mem_files_iff.1 hf)
  grounded := fun source tree ht => by
    obtain ⟨output, hread⟩ := h.tree?_iff.1 ht
    exact (h.parsesTo hread).isParsed.grounded.marks (h.marks hread)
  statement := fun index edge he => by
    obtain ⟨tree, name, ht, hi, hn, -⟩ :=
      h.statement_of_edge (Array.mem_toList_iff.2 (Array.mem_of_getElem? he))
    exact ⟨tree, name, ht, hi, hn⟩
  distinct := fun index index' edge edge' he he' hsource hnode => by
    have hlt : index < (loading.graph.edges.toList.map
        fun edge => (edge.includer, edge.node)).length := by
      rw [List.length_map, Array.length_toList]
      exact (Array.getElem?_eq_some_iff.1 he).1
    refine (List.getElem?_inj hlt h.nodup_edges).1 ?_
    have hedge : loading.graph.edges.toList[index]? = some edge := Array.getElem?_toList ▸ he
    have hedge' : loading.graph.edges.toList[index']? = some edge' := Array.getElem?_toList ▸ he'
    rw [List.getElem?_map, List.getElem?_map, hedge, hedge', Option.map_some, Option.map_some,
      hsource, hnode]
  complete := fun source tree item name items ht hi hk => by
    obtain ⟨output, hread⟩ := h.tree?_iff.1 ht
    have hparsed := (h.parsesTo hread).isParsed
    obtain ⟨⟨kind, span⟩, hn, rfl⟩ := Option.map_eq_some_iff.1 hk
    have hmarks := h.marks hread
    have hstatement : (item, name, span) ∈ includeStatements output.tree :=
      mem_includeStatements.2 ⟨hparsed.grounded.items_marks hmarks ▸ hi, items, hmarks.node?_eq hn⟩
    obtain ⟨target, hm⟩ := h.mem_log_iff.2 ⟨output, tree, hread, hstatement⟩
    cases target with
    | none =>
      -- What leads nowhere would be marked.
      have hcut : Unresolved disk settings loading.sources source output.tree item :=
        ⟨name, span, (mem_includeStatements.1 hstatement).1, hparsed.node?_of_mem hstatement,
          (h.target_eq_none_iff hm).1 rfl⟩
      obtain ⟨_, _, -, herror⟩ := hmarks.cut item hcut
      cases hn.symm.trans herror
    | some target =>
      have hedge : (⟨source, target, span, item⟩ : Inclusion) ∈ loading.graph.edges.toList := by
        rw [h.logged.edges, mem_filterMap_edge?]
        exact ⟨name, hm⟩
      obtain ⟨index, hindex⟩ := List.mem_iff_getElem?.1 hedge
      exact ⟨index, _, Array.getElem?_toList ▸ hindex, rfl, rfl⟩
  reported := fun source tree id name span ht hn => ⟨_, h.reported ht hn, rfl, rfl⟩
  uncut := fun diagnostic hd heq => by
    rcases h.report_cases hd with htext | ⟨followed, -, -, rfl⟩
    · rw [heq] at htext
      cases htext
    · cases heq

/-- A loading that has ended is resolved. -/
theorem Ended.resolved (h : Ended disk settings path loading reads origins log) :
    loading.toProgram.Resolved disk settings where
  parsed := fun source tree ht => by
    obtain ⟨output, hread⟩ := h.tree?_iff.1 ht
    exact ⟨output, (h.parsesTo hread).isParsed, h.marks hread⟩
  leads := fun index edge he => by
    obtain ⟨tree, name, ht, -, hn, hleads⟩ :=
      h.statement_of_edge (Array.mem_toList_iff.2 (Array.mem_of_getElem? he))
    exact ⟨tree, name, ht, hn, hleads⟩

end

end Loading

end OpenQasm
