import OpenQasm.Proofs.Grammar.Grounding
import OpenQasm.Proofs.Program.Expansion
import OpenQasm.Proofs.Program.Origins

/-!
# The history of a program

Every include statement of every source is followed once, source by source and in the order of the
text. What the statements led to is a log, and all that loading leaves behind can be read off it:
the edges and the files of the graph, the reports of what leads nowhere, and the statements that are
marked in the trees.
-/

namespace OpenQasm

namespace Loading

open SourceMap (Within)
open OpenQasm.Tree (Marks)

/-! ## The log -/

/-- An include statement that has been followed, with the source to which it led. -/
structure Followed where
  source : SourceId
  node : NodeId
  name : String
  span : Span
  target : Option SourceId

namespace Followed

/-- The statement of a source. -/
def statement (followed : Followed) : SourceId × NodeId × String × Span :=
  (followed.source, followed.node, followed.name, followed.span)

/-- The edge of a statement that led to a source. -/
def edge? (followed : Followed) : Option Inclusion :=
  followed.target.map fun included =>
    { includer := followed.source, included, span := followed.span, node := followed.node }

/-- The report of a statement that led nowhere. -/
def report? (settings : Settings) (followed : Followed) : Option Diagnostic :=
  if followed.target.isNone then some (notFound settings followed.name followed.span) else none

/-- A statement led where its name is resolved to. -/
def Settled (disk : Disk Id) (settings : Settings) (sources : SourceMap)
    (origins : List Resolution) (followed : Followed) : Prop :=
  followed.source.index < sources.size ∧ match followed.target with
    | some target =>
      origins[target.index]? = some (resolution disk settings sources followed.source followed.name)
    | none => resolution disk settings sources followed.source followed.name = .notFound

/-- A statement that is settled is so with more sources. -/
theorem Settled.mono {disk : Disk Id} {settings : Settings} {sources sources' : SourceMap}
    {origins more : List Resolution} {followed : Followed}
    (h : followed.Settled disk settings sources origins) (hw : Within sources sources') :
    followed.Settled disk settings sources' (origins ++ more) := by
  obtain ⟨hlt, htarget⟩ := h
  refine ⟨Nat.lt_of_lt_of_le hlt hw.size, ?_⟩
  rw [resolution_within hw hlt]
  split
  · next target heq =>
    rw [heq] at htarget
    rw [List.getElem?_append_left (List.getElem?_eq_some_iff.1 htarget).1]
    exact htarget
  · next heq =>
    rw [heq] at htarget
    exact htarget

end Followed

/-- The graph and the reports of a program, as its log tells them. -/
structure Logged (disk : Disk Id) (settings : Settings) (sources : SourceMap)
    (origins : List Resolution) (graph : IncludeGraph) (reported : List Diagnostic)
    (log : List Followed) : Prop where
  settled : ∀ followed ∈ log, followed.Settled disk settings sources origins
  files : graph.files = (List.range origins.length).map SourceId.mk
  edges : graph.edges.toList = log.filterMap Followed.edge?
  reports : reported.filter (fun diagnostic => !diagnostic.code.isOfText) =
    log.filterMap (·.report? settings)
  found : ∀ index, 0 < index → index < origins.length →
    ∃ followed ∈ log, followed.source.index < index ∧ followed.target = some ⟨index⟩

section
variable {disk : Disk Id} {settings : Settings} {sources sources' : SourceMap}
  {origins : List Resolution} {graph : IncludeGraph} {reported : List Diagnostic}
  {log : List Followed} {source target : SourceId} {node : NodeId} {name : String} {span : Span}

/-- Registering the source with the next id, or one before it. -/
theorem addFile_files {count : Nat} {file : SourceId}
    (h : graph.files = (List.range count).map SourceId.mk) (hle : file.index ≤ count) :
    (graph.addFile file).files = (List.range (max count (file.index + 1))).map SourceId.mk := by
  have hmem : graph.files.contains file = true ↔ file.index < count := by
    rw [h, List.contains_iff_mem, List.mem_map]
    constructor
    · rintro ⟨index, hi, rfl⟩
      exact List.mem_range.1 hi
    · exact fun hlt => ⟨file.index, List.mem_range.2 hlt, rfl⟩
  unfold IncludeGraph.addFile
  by_cases hlt : file.index < count
  · rw [if_pos (hmem.2 hlt), h, Nat.max_eq_left hlt]
  · obtain rfl : file.index = count := Nat.le_antisymm hle (Nat.le_of_not_lt hlt)
    rw [if_neg (mt hmem.1 hlt), Nat.max_eq_right (Nat.le_succ _), List.range_succ, List.map_append,
      h]
    rfl

/-- A statement that leads to a source, which is registered or new. -/
theorem Logged.addEdge (h : Logged disk settings sources origins graph reported log)
    (hw : Within sources sources') (hsize : origins.length = sources.size)
    (hsource : source.index < sources.size) (hle : target.index ≤ origins.length)
    {more : List Resolution} (hmore : (origins ++ more).length =
      max origins.length (target.index + 1))
    (htarget : (origins ++ more)[target.index]? =
      some (resolution disk settings sources source name)) :
    Logged disk settings sources' (origins ++ more)
      (graph.addInclude ⟨source, target, span, node⟩) reported
      (log ++ [⟨source, node, name, span, some target⟩]) where
  settled followed hm := by
    rcases List.mem_append.1 hm with hm | hm
    · exact (h.settled followed hm).mono hw
    · obtain rfl := List.mem_singleton.1 hm
      refine ⟨Nat.lt_of_lt_of_le hsource hw.size, ?_⟩
      rw [resolution_within hw hsource]
      exact htarget
  files := by
    have hfirst := addFile_files h.files (Nat.le_of_lt (hsize ▸ hsource))
    rw [Nat.max_eq_left (hsize ▸ hsource)] at hfirst
    exact hmore ▸ addFile_files hfirst hle
  edges := by
    rw [List.filterMap_append, ← h.edges]
    simp [IncludeGraph.addInclude, IncludeGraph.addFile_edges, Followed.edge?]
  reports := by
    rw [List.filterMap_append, ← h.reports]
    exact (List.append_nil _).symm
  found index hpos hlt := by
    by_cases hold : index < origins.length
    · obtain ⟨followed, hm, hfound⟩ := h.found index hpos hold
      exact ⟨followed, List.mem_append_left _ hm, hfound⟩
    · obtain rfl : target.index = index := by omega
      have hbefore : source.index < target.index := by omega
      exact ⟨_, List.mem_append_right _ (List.mem_singleton.2 rfl), hbefore, rfl⟩

/-- A statement that leads nowhere. -/
theorem Logged.miss (h : Logged disk settings sources origins graph reported log)
    (hsource : source.index < sources.size)
    (hnowhere : resolution disk settings sources source name = .notFound) :
    Logged disk settings sources origins graph (reported ++ [notFound settings name span])
      (log ++ [⟨source, node, name, span, none⟩]) :=
  { h with
    settled := fun followed hm => by
      rcases List.mem_append.1 hm with hm | hm
      · exact h.settled followed hm
      · obtain rfl := List.mem_singleton.1 hm
        exact ⟨hsource, hnowhere⟩
    edges := by
      rw [List.filterMap_append, ← h.edges]
      exact (List.append_nil _).symm
    reports := by
      rw [List.filterMap_append, List.filter_append, ← h.reports]
      rfl
    found := fun index hpos hlt => by
      obtain ⟨followed, hm, hfound⟩ := h.found index hpos hlt
      exact ⟨followed, List.mem_append_left _ hm, hfound⟩ }

/-- Reports about the text of a source do not matter. -/
theorem Logged.report (h : Logged disk settings sources origins graph reported log)
    {more : List Diagnostic} (hm : ∀ diagnostic ∈ more, diagnostic.code.isOfText) :
    Logged disk settings sources origins graph (reported ++ more) log :=
  { h with
    reports := by
      rw [List.filter_append, h.reports, List.filter_eq_nil_iff.2 fun diagnostic hd => by
        simp [hm diagnostic hd], List.append_nil] }

end

/-! ## What has been read -/

/-- The version with which a tree begins. -/
def beginning? (tree : Tree) : Option Version :=
  (tree.items.head?.bind tree.kind?).bind fun
    | .versionPragma version => some version
    | _ => none

/-- The version as of which a source is read: none for the entry, and for all others the one with
which the entry begins. -/
def versionFor (settings : Settings) (sources : SourceMap) (source : SourceId) : Option Version :=
  if source.index = 0 then none
  else
    (parse ⟨0⟩ (sources.text ⟨0⟩).toList (settings.parseOptions none)).toOption.bind fun output =>
      beginning? output.tree

/-- What a source yields when it is read. -/
def ParsesTo (settings : Settings) (sources : SourceMap) (source : SourceId)
    (output : ParseOutput) : Prop :=
  parse source (sources.text source).toList
    (settings.parseOptions (versionFor settings sources source)) = .ok output

/-- The include statements of some sources, the first of which has the id `first`. -/
def statementsFrom (first : Nat) : List ParseOutput → List (SourceId × NodeId × String × Span)
  | [] => []
  | output :: outputs =>
    (includeStatements output.tree).map (⟨first⟩, ·) ++ statementsFrom (first + 1) outputs

/-- The statements of two rows of outputs are those of both. -/
theorem statementsFrom_append (first : Nat) (outputs more : List ParseOutput) :
    statementsFrom first (outputs ++ more) =
      statementsFrom first outputs ++ statementsFrom (first + outputs.length) more := by
  induction outputs generalizing first with
  | nil => rfl
  | cons output outputs ih =>
    rw [List.cons_append, statementsFrom, statementsFrom, ih, List.append_assoc, List.length_cons,
      Nat.add_right_comm, Nat.add_assoc]

/-- A statement of a source is one of its output. -/
theorem mem_statementsFrom {first : Nat} {outputs : List ParseOutput} {source : SourceId}
    {statement : NodeId × String × Span} :
    (source, statement) ∈ statementsFrom first outputs ↔
      ∃ output, first ≤ source.index ∧ outputs[source.index - first]? = some output ∧
        statement ∈ includeStatements output.tree := by
  induction outputs generalizing first with
  | nil => simp [statementsFrom]
  | cons head outputs ih =>
    rw [statementsFrom, List.mem_append, ih]
    constructor
    · rintro (h | ⟨output, hle, hget, hm⟩)
      · obtain ⟨_, hm, heq⟩ := List.mem_map.1 h
        cases heq
        exact ⟨head, Nat.le_refl _, by rw [Nat.sub_self]; rfl, hm⟩
      · refine ⟨output, by omega, ?_, hm⟩
        rwa [show source.index - first = source.index - (first + 1) + 1 by omega,
          List.getElem?_cons_succ]
    · rintro ⟨output, hle, hget, hm⟩
      by_cases heq : source.index = first
      · rw [heq, Nat.sub_self] at hget
        cases hget
        exact .inl (List.mem_map.2 ⟨statement, hm, by rw [← heq]⟩)
      · refine .inr ⟨output, by omega, ?_, hm⟩
        rwa [show source.index - first = source.index - (first + 1) + 1 by omega,
          List.getElem?_cons_succ] at hget

/-- The sources that have been read, each with its parse and its tree. In a tree those statements
are marked that led nowhere. Some statements of the last source are still to be followed. -/
structure Read (settings : Settings) (sources : SourceMap)
    (reads : List (ParseOutput × Tree)) (log : List Followed)
    (todo : List (SourceId × NodeId × String × Span)) : Prop where
  size : reads.length ≤ sources.size
  parsed : ∀ (id : SourceId) output tree, reads[id.index]? = some (output, tree) →
    ParsesTo settings sources id output
  marked : ∀ (id : SourceId) output tree, reads[id.index]? = some (output, tree) →
    Marks output.tree tree fun node =>
      ∃ followed ∈ log, followed.source = id ∧ followed.target = none ∧ followed.node = node
  log : log.map Followed.statement ++ todo = statementsFrom 0 (reads.map Prod.fst)

section
variable {settings : Settings} {sources sources' : SourceMap}
  {reads : List (ParseOutput × Tree)} {log : List Followed}
  {todo : List (SourceId × NodeId × String × Span)} {source target : SourceId} {node : NodeId}
  {name : String} {span : Span} {output : ParseOutput} {tree : Tree}

/-- More sources do not change the version that a source is parsed for. -/
theorem versionFor_within (hw : Within sources sources') (hpos : 0 < sources.size) :
    versionFor settings sources' source = versionFor settings sources source := by
  have htext : sources'.text ⟨0⟩ = sources.text ⟨0⟩ := hw.text hpos
  rw [versionFor, versionFor, htext]

/-- Nor what it parses to. -/
theorem ParsesTo.within (h : ParsesTo settings sources source output) (hw : Within sources sources')
    (hlt : source.index < sources.size) : ParsesTo settings sources' source output := by
  rw [ParsesTo, hw.text hlt, versionFor_within hw (Nat.zero_lt_of_lt hlt)]
  exact h

/-- More sources do not matter. -/
theorem Read.within (h : Read settings sources reads log todo) (hw : Within sources sources') :
    Read settings sources' reads log todo :=
  { h with
    size := Nat.le_trans h.size hw.size
    parsed := fun id output tree hr => (h.parsed id output tree hr).within hw
      (Nat.lt_of_lt_of_le (List.getElem?_eq_some_iff.1 hr).1 h.size) }

/-- What has been followed is a statement of a source that has been read. -/
theorem Read.of_mem (h : Read settings sources reads log todo) {followed : Followed}
    (hm : followed ∈ log) : ∃ output tree, reads[followed.source.index]? = some (output, tree) ∧
      (followed.node, followed.name, followed.span) ∈ includeStatements output.tree := by
  have hmem : followed.statement ∈ statementsFrom 0 (reads.map Prod.fst) :=
    h.log ▸ List.mem_append_left _ (List.mem_map_of_mem hm)
  obtain ⟨output, -, hget, hstatement⟩ := mem_statementsFrom.1 hmem
  rw [List.getElem?_map, Option.map_eq_some_iff] at hget
  obtain ⟨⟨_, tree⟩, hread, rfl⟩ := hget
  exact ⟨_, tree, hread, hstatement⟩

/-- The statements of the next source are to be followed. -/
theorem Read.push (h : Read settings sources reads log []) (hs : source.index = reads.length)
    (hlt : reads.length < sources.size)
    (hp : ParsesTo settings sources source output) :
    Read settings sources (reads ++ [(output, output.tree)]) log
      ((includeStatements output.tree).map (source, ·)) where
  size := by rwa [List.length_append]
  parsed id output' tree hr := by
    rcases getElem?_concat_iff.1 hr with hr | ⟨hindex, heq⟩
    · exact h.parsed id output' tree hr
    · cases heq
      rwa [show id = source from congrArg SourceId.mk (hindex.trans hs.symm)]
  marked id output' tree hr := by
    rcases getElem?_concat_iff.1 hr with hr | ⟨hindex, heq⟩
    · exact h.marked id output' tree hr
    · cases heq
      obtain rfl : id = source := congrArg SourceId.mk (hindex.trans hs.symm)
      refine (Marks.refl _).congr fun node => ⟨False.elim, fun ⟨followed, hm, hsource, _⟩ => ?_⟩
      obtain ⟨_, _, hread, -⟩ := h.of_mem hm
      rw [hsource, hindex] at hread
      exact Nat.lt_irrefl _ (List.getElem?_eq_some_iff.1 hread).1
  log := by
    have hlog := h.log
    rw [List.append_nil] at hlog
    rw [List.map_append, statementsFrom_append, List.length_map, hlog, Nat.zero_add, ← hs]
    exact congrArg _ (List.append_nil _).symm

/-- A statement that led to a source is done. -/
theorem Read.addEdge (h : Read settings sources reads log ((source, node, name, span) :: todo)) :
    Read settings sources reads (log ++ [⟨source, node, name, span, some target⟩]) todo :=
  { h with
    marked := fun id output tree hr => (h.marked id output tree hr).congr fun node' => by
      simp
    log := by
      rw [List.map_append, List.append_assoc]
      exact h.log }

/-- A statement that led nowhere is done once it is marked. -/
theorem Read.miss
    (h : Read settings sources (reads ++ [(output, tree)]) log
      ((source, node, name, span) :: todo))
    (hs : source.index = reads.length)
    (hn : output.tree.node? node = some ⟨.includeFile name [], span⟩) :
    ∃ marked, tree.markIncludeError node = .ok marked ∧
      Read settings sources (reads ++ [(output, marked)])
        (log ++ [⟨source, node, name, span, none⟩]) todo := by
  have hlast : (reads ++ [(output, tree)])[source.index]? = some (output, tree) :=
    getElem?_concat_iff.2 (.inr ⟨hs, rfl⟩)
  obtain ⟨marked, hmark, hmarks⟩ := (h.marked source output tree hlast).mark hn
  refine ⟨marked, hmark, ?_⟩
  have hbefore : ∀ {id : SourceId} {output' tree'},
      (reads ++ [(output, marked)])[id.index]? = some (output', tree') →
        ((reads ++ [(output, tree)])[id.index]? = some (output', tree') ∧ id ≠ source) ∨
          (id = source ∧ output' = output ∧ tree' = marked) := by
    intro id output' tree' hr
    rcases getElem?_concat_iff.1 hr with hr | ⟨hindex, heq⟩
    · refine .inl ⟨getElem?_concat_iff.2 (.inl hr), fun heq => ?_⟩
      have hlt := (List.getElem?_eq_some_iff.1 hr).1
      rw [heq, hs] at hlt
      exact Nat.lt_irrefl _ hlt
    · cases heq
      exact .inr ⟨congrArg SourceId.mk (hindex.trans hs.symm), rfl, rfl⟩
  refine ⟨?_, fun id output' tree' hr => ?_, fun id output' tree' hr => ?_, ?_⟩
  · have hsize := h.size
    rw [List.length_append] at hsize ⊢
    exact hsize
  · rcases hbefore hr with ⟨hr, -⟩ | ⟨rfl, rfl, rfl⟩
    · exact h.parsed id output' tree' hr
    · exact h.parsed id output' tree hlast
  · rcases hbefore hr with ⟨hr, hne⟩ | ⟨rfl, rfl, rfl⟩
    · refine (h.marked id output' tree' hr).congr fun node' => ?_
      simp [hne.symm]
    · refine hmarks.congr fun node' => ?_
      simp [or_and_right, exists_or, eq_comm]
  · have hlog := h.log
    rw [List.map_append] at hlog
    rw [List.map_append, List.map_append, List.append_assoc]
    exact hlog

end

/-! ## Both together -/

/-- All that is known of a program that is being loaded: its tables, its log, and what has been
read. -/
structure History (disk : Disk Id) (settings : Settings) (path : Path) (loading : Loading)
    (reads : List (ParseOutput × Tree)) (origins : List Resolution) (log : List Followed)
    (todo : List (SourceId × NodeId × String × Span)) : Prop where
  registers : Registers disk path loading origins
  logged : Logged disk settings loading.sources origins loading.graph loading.diagnostics.items log
  read : Read settings loading.sources reads log todo

section
variable {disk : Disk Id} {settings : Settings} {path : Path} {loading after : Loading}
  {reads : List (ParseOutput × Tree)} {origins more : List Resolution} {log : List Followed}
  {todo : List (SourceId × NodeId × String × Span)} {source target : SourceId} {node : NodeId}
  {name : String} {span : Span} {output : ParseOutput} {tree : Tree}

/-- A statement leads to a source, which is registered or new. -/
theorem History.addEdge
    (h : History disk settings path loading reads origins log ((source, node, name, span) :: todo))
    (hr : Registers disk path after (origins ++ more)) (hw : Within loading.sources after.sources)
    (hg : after.graph = loading.graph) (hd : after.diagnostics = loading.diagnostics)
    (hsource : source.index < reads.length) (hle : target.index ≤ origins.length)
    (hmore : (origins ++ more).length = max origins.length (target.index + 1))
    (htarget : (origins ++ more)[target.index]? =
      some (resolution disk settings loading.sources source name)) :
    History disk settings path
      { after with graph := after.graph.addInclude ⟨source, target, span, node⟩ } reads
      (origins ++ more) (log ++ [⟨source, node, name, span, some target⟩]) todo where
  registers := { hr with }
  logged := by
    have hlt := Nat.lt_of_lt_of_le hsource h.read.size
    rw [hg, hd]
    exact h.logged.addEdge hw h.registers.size hlt hle hmore htarget
  read := (h.read.within hw).addEdge

/-- A statement leads nowhere. It is reported and marked. -/
theorem History.miss
    (h : History disk settings path loading (reads ++ [(output, tree)]) origins log
      ((source, node, name, span) :: todo))
    (hs : source.index = reads.length)
    (hn : output.tree.node? node = some ⟨.includeFile name [], span⟩)
    (hnowhere : resolution disk settings loading.sources source name = .notFound) :
    ∃ marked, tree.markIncludeError node = .ok marked ∧
      History disk settings path
        { loading with toProgram := loading.report (notFound settings name span) }
        (reads ++ [(output, marked)]) origins (log ++ [⟨source, node, name, span, none⟩]) todo := by
  obtain ⟨marked, hmark, hread⟩ := h.read.miss hs hn
  have hlt : source.index < loading.sources.size := by
    have hsize := h.read.size
    rw [List.length_append, List.length_singleton] at hsize
    omega
  exact ⟨marked, hmark, { h.registers with }, h.logged.miss hlt hnowhere, hread⟩

/-- The statements of the next source are to be followed. -/
theorem History.push (h : History disk settings path loading reads origins log [])
    (hs : source.index = reads.length) (hlt : reads.length < loading.sources.size)
    (hp : ParsesTo settings loading.sources source output) :
    History disk settings path
      { loading with diagnostics := loading.diagnostics.append output.diagnostics }
      (reads ++ [(output, output.tree)]) origins log
      ((includeStatements output.tree).map (source, ·)) where
  registers := { h.registers with }
  logged := h.logged.report (Grammar.parse_grounded hp).2.2
  read := h.read.push hs hlt hp

end

end Loading

end OpenQasm
