import OpenQasm.Proofs.Grammar.Portions
import OpenQasm.Proofs.Program.Compilation

/-!
# What an entry leads to

The sources of a compilation are the entry and what include statements lead to from there, each one
once. All of them are read, the edges are the statements that lead to a source, and every other
statement is marked and reported. Compiling fails only for settings that are not valid, for a file
that cannot be read, or when the machine numbers do not suffice for a parse.
-/

namespace OpenQasm

namespace Loading

/-! ## Reaching -/

/-- What the entry leads to: its own file, and whatever is named by an include statement of a source
that stems from what the entry leads to. -/
inductive Reached (disk : Disk Id) (settings : Settings) (path : Path) (sources : SourceMap)
    (origins : List Resolution) : Resolution → Prop
  | entry : Reached disk settings path sources origins (.file (Id.run (disk.canonical path)))
  | step {origin : Resolution} {source : SourceId} {output : ParseOutput} {node : NodeId}
      {name : String} {span : Span} :
      Reached disk settings path sources origins origin → origins[source.index]? = some origin →
      ParsesTo settings sources source output → (node, name, span) ∈ includeStatements output.tree →
      resolution disk settings sources source name ≠ .notFound →
      Reached disk settings path sources origins (resolution disk settings sources source name)

/-- A registry of sources to which the entry leads. -/
structure Reaches (disk : Disk Id) (settings : Settings) (path : Path) (sources : SourceMap)
    (origins : List Resolution) : Prop extends Origins disk path sources origins where
  reached : ∀ origin ∈ origins, Reached disk settings path sources origins origin

section
variable {disk : Disk Id} {settings : Settings} {path : Path} {loading : Loading}
  {reads : List (ParseOutput × Tree)} {origins : List Resolution} {origin : Resolution}
  {log : List Followed} {todo : List (SourceId × NodeId × String × Span)} {source : SourceId}
  {output : ParseOutput} {node : NodeId} {name : String} {span : Span}

/-- Each registered source has an origin. -/
theorem Origins.exists_origin {sources : SourceMap} (h : Origins disk path sources origins)
    (hlt : source.index < sources.size) : ∃ origin, origins[source.index]? = some origin :=
  ⟨_, List.getElem?_eq_getElem (h.size ▸ hlt)⟩

/-- A source is found by a statement of a source before it, so the entry leads to all of them. -/
theorem History.reaches (h : History disk settings path loading reads origins log todo) :
    Reaches disk settings path loading.sources origins := by
  refine { h.registers with reached := fun origin hm => ?_ }
  obtain ⟨index, ho⟩ := List.mem_iff_getElem?.1 hm
  induction index using Nat.strongRecOn generalizing origin with
  | ind index ih =>
    by_cases hzero : index = 0
    · subst hzero
      obtain rfl := Option.some.inj (h.registers.entry.symm.trans ho)
      exact .entry
    · obtain ⟨followed, hmem, hlt, htarget⟩ :=
        h.logged.found index (Nat.pos_of_ne_zero hzero) (List.getElem?_eq_some_iff.1 ho).1
      obtain ⟨output, tree, hread, hstatement⟩ := h.read.of_mem hmem
      obtain ⟨hsource, hsettled⟩ := h.logged.settled followed hmem
      rw [htarget] at hsettled
      obtain rfl := Option.some.inj (hsettled.symm.trans ho)
      obtain ⟨includer, hincluder⟩ := h.registers.exists_origin hsource
      exact .step (ih _ hlt includer (List.mem_of_getElem? hincluder) hincluder) hincluder
        (h.read.parsed _ _ tree hread) hstatement (h.registers.ne_notFound hm)

/-- What a source yields is what it has been read to. -/
theorem Ended.exists_read (h : Ended disk settings path loading reads origins log)
    (hlt : source.index < loading.sources.size)
    (hp : ParsesTo settings loading.sources source output) :
    ∃ tree, reads[source.index]? = some (output, tree) := by
  obtain ⟨⟨output', tree⟩, hread⟩ : ∃ read, reads[source.index]? = some read :=
    ⟨_, List.getElem?_eq_getElem (h.all ▸ hlt)⟩
  obtain rfl := Except.ok.inj (hp.symm.trans (h.parsesTo hread))
  exact ⟨tree, hread⟩

/-- What has a source in the end is what the entry leads to. -/
theorem Ended.mem_iff_reached (h : Ended disk settings path loading reads origins log) :
    origin ∈ origins ↔ Reached disk settings path loading.sources origins origin := by
  refine ⟨h.toHistory.reaches.reached origin, fun hr => ?_⟩
  induction hr with
  | entry => exact List.mem_of_getElem? h.registers.entry
  | @step includer source output node name span _ hincluder hp hstatement hne =>
    obtain ⟨tree, hread⟩ := h.exists_read (h.registers.index_lt hincluder) hp
    obtain ⟨target, hm⟩ := h.mem_log_iff.2 ⟨output, tree, hread, hstatement⟩
    obtain ⟨-, hsettled⟩ := h.logged.settled _ hm
    cases target with
    | some target => exact List.mem_of_getElem? hsettled
    | none => exact absurd hsettled hne

/-- Two statements of a program that stand at one place are the same. -/
theorem Ended.statement_inj (h : Ended disk settings path loading reads origins log)
    {left right : Followed} (hl : left ∈ log) (hr : right ∈ log) (hspan : left.span = right.span) :
    left.name = right.name := by
  have hread : ∀ followed ∈ log, ∃ output tree,
      reads[followed.source.index]? = some (output, tree) ∧
      (followed.node, followed.name, followed.span) ∈ includeStatements output.tree ∧
      output.tree.node? followed.node = some ⟨.includeFile followed.name [], followed.span⟩ ∧
      Text.width (loading.sources.text followed.source).toList ≤ maxOffset := fun followed hm => by
    obtain ⟨output, tree, hread, hstatement⟩ := h.read.of_mem hm
    exact ⟨output, tree, hread, hstatement, (h.parsesTo hread).isParsed.node?_of_mem hstatement,
      h.registers.width_text (h.logged.settled followed hm).1⟩
  obtain ⟨output, tree, hreadl, hstatementl, hnodel, hwidthl⟩ := hread left hl
  obtain ⟨output', tree', hreadr, hstatementr, hnoder, hwidthr⟩ := hread right hr
  have hiteml := (mem_includeStatements.1 hstatementl).1
  have hitemr := (mem_includeStatements.1 hstatementr).1
  have hparsel := h.parsesTo hreadl
  have hsource : left.source = right.source := by
    rw [← Grammar.source_of_item hparsel hwidthl hiteml hnodel, hspan]
    exact Grammar.source_of_item (h.parsesTo hreadr) hwidthr hitemr hnoder
  rw [hsource] at hreadl
  cases hreadl.symm.trans hreadr
  have hnode : left.node = right.node := Grammar.item_inj hparsel hwidthl hiteml hitemr (by
    rw [hnodel, hnoder, Option.map_some, Option.map_some, hspan])
  rw [hnode, hnoder, Option.some.injEq, Node.mk.injEq, NodeKind.includeFile.injEq] at hnodel
  exact hnodel.1.1.symm

/-- Of a statement that leads nowhere there is one report. -/
theorem Ended.filter_notFound (h : Ended disk settings path loading reads origins log)
    {edges : List Inclusion} {checked : Program}
    (hcut : Program.CutAt loading.toProgram edges checked)
    (hm : ⟨source, node, name, span, none⟩ ∈ log) :
    ((checked.diagnostics.finish 0).filter fun diagnostic =>
      diagnostic.code = .includeNotFound ∧ diagnostic.span = span) =
        [notFound settings name span] := by
  have hreport : notFound settings name span ∈ log.filterMap (·.report? settings) :=
    List.mem_filterMap.2 ⟨_, hm, rfl⟩
  rw [← h.logged.reports] at hreport
  refine Diagnostics.filter_sorted_eq (hcut.kept _ (List.mem_filter.1 hreport).1) rfl rfl ?_
  intro other ho hcode hspan
  rcases h.report_cases (hcut.missed other ho hcode) with htext | ⟨followed, hf, -, rfl⟩
  · rw [hcode] at htext
    cases htext
  · have hspan : followed.span = span := hspan
    have hname : followed.name = name := h.statement_inj hf hm hspan
    rw [hname, hspan]

end

end Loading

/-! ## Programs of an entry -/

/-- A program that consists of all that its entry leads to. Each of its sources stems from a file or
a library of its own, and is read once, as of the version with which the entry begins. Its edges are
the statements that lead to a source. -/
structure Program.LoadedFrom (disk : Disk Id) (settings : Settings) (path : Path)
    (program : Program) (origins : List Resolution) : Prop extends
    Loading.Origins disk path program.sources origins where
  reached : ∀ origin,
    origin ∈ origins ↔ Loading.Reached disk settings path program.sources origins origin
  readings : ∃ loading waves last, Loading.Fresh disk path loading ∧
    Loading.Turns disk settings ⟨0⟩ (Loading.Stage.first loading) waves last ∧
    last.wave = [] ∧ last.loading.toProgram = program ∧
    Loading.readings waves = (List.range program.sources.size).map fun index =>
      (⟨index⟩, if index = 0 then none else (program.leadingVersion? ⟨0⟩).map Prod.fst)
  tree : ∀ source : SourceId, source.index < program.sources.size → ∃ output tree,
    Loading.ParsesTo settings program.sources source output ∧
    program.tree? source = some tree ∧
    Tree.Marks output.tree tree
      (Loading.Unresolved disk settings program.sources source output.tree)
  files : program.graph.files = (List.range program.sources.size).map SourceId.mk
  edges : ∀ edge, edge ∈ program.graph.edges.toList ↔ ∃ name output,
    edge.includer.index < program.sources.size ∧
    Loading.ParsesTo settings program.sources edge.includer output ∧
    (edge.node, name, edge.span) ∈ Loading.includeStatements output.tree ∧
    origins[edge.included.index]? =
      some (Loading.resolution disk settings program.sources edge.includer name)
  single : (program.graph.edges.toList.map fun edge => (edge.includer, edge.node)).Nodup

/-- Every include statement of a program that leads nowhere is marked, and reported once. -/
def Program.MissesReported (disk : Disk Id) (settings : Settings) (program : Program)
    (compilation : Compilation) : Prop :=
  ∀ (source : SourceId) (output : ParseOutput) (node : NodeId) (name : String) (span : Span),
    source.index < program.sources.size →
    Loading.ParsesTo settings program.sources source output →
    (node, name, span) ∈ Loading.includeStatements output.tree →
    Loading.resolution disk settings program.sources source name = .notFound →
    (∃ tree, program.tree? source = some tree ∧ node ∈ tree.items ∧
      tree.node? node = some ⟨.includeError name, span⟩) ∧
    (compilation.diagnostics.filter fun diagnostic =>
      diagnostic.code = .includeNotFound ∧ diagnostic.span = span) =
        [Loading.notFound settings name span]

namespace Loading

section
variable {disk : Disk Id} {settings : Settings} {path : Path} {loading : Loading}
  {reads : List (ParseOutput × Tree)} {origins : List Resolution} {log : List Followed}

/-- An include that leads nowhere is reported. -/
theorem Ended.missesReported (h : Ended disk settings path loading reads origins log)
    {edges : List Inclusion} {checked : Program} {compilation : Compilation}
    (hcut : Program.CutAt loading.toProgram edges checked)
    (hd : compilation.diagnostics = checked.diagnostics.finish 0) :
    loading.toProgram.MissesReported disk settings compilation := by
  intro source output node name span hlt hp hstatement hnowhere
  obtain ⟨tree, hread⟩ := h.exists_read hlt hp
  have hnode := hp.isParsed.node?_of_mem hstatement
  have hitem := (mem_includeStatements.1 hstatement).1
  constructor
  · obtain ⟨name', span', hfile, herror⟩ :=
      (h.marks hread).cut node ⟨name, span, hitem, hnode, hnowhere⟩
    cases hnode.symm.trans hfile
    refine ⟨tree, h.tree?_iff.2 ⟨output, hread⟩, ?_, herror⟩
    rwa [hp.isParsed.grounded.items_marks (h.marks hread)]
  · obtain ⟨target, hm⟩ := h.mem_log_iff.2 ⟨output, tree, hread, hstatement⟩
    obtain rfl : target = none := (h.target_eq_none_iff hm).2 hnowhere
    rw [hd]
    exact h.filter_notFound hcut hm

/-- The program of which all sources have been read. -/
theorem Stage.Ready.loadedFrom {first : Loading} {last : Stage}
    {waves : List (Option Version × List SourceId)} (hready : last.Ready disk settings path)
    (hfresh : Fresh disk path first)
    (hturns : Turns disk settings ⟨0⟩ (Stage.first first) waves last) (hnone : last.wave = [])
    (hreadings : readings waves = (List.range last.loading.sources.size).map
      fun index => (⟨index⟩, versionFor settings last.loading.sources ⟨index⟩))
    (h : Ended disk settings path last.loading reads origins log) :
    last.loading.toProgram.LoadedFrom disk settings path origins :=
  { h.registers.toOrigins with
    reached := fun origin => h.mem_iff_reached
    readings := by
      refine ⟨first, waves, last, hfresh, hturns, hnone, rfl, hreadings.trans ?_⟩
      refine List.map_congr_left fun index hi => Prod.ext rfl ?_
      by_cases hzero : index = 0
      · rw [if_pos hzero, versionFor, if_pos hzero]
      · rw [if_neg hzero]
        have hcount := hready.waiting.count
        rw [hnone, List.length_nil, Nat.add_zero] at hcount
        have hpos := hcount ▸ Nat.zero_lt_of_lt (List.mem_range.1 hi)
        exact hready.waiting.between.version hpos hzero
    tree := fun source hlt => by
      obtain ⟨⟨output, tree⟩, hread⟩ : ∃ read, reads[source.index]? = some read :=
        ⟨_, List.getElem?_eq_getElem (h.all ▸ hlt)⟩
      exact ⟨output, tree, h.parsesTo hread, h.tree?_iff.2 ⟨output, hread⟩, h.marks hread⟩
    files := by rw [h.logged.files, h.registers.size]
    edges := fun edge => by
      rw [h.mem_edges_iff]
      constructor
      · rintro ⟨name, output, tree, hread, hstatement, horigin⟩
        exact ⟨name, output, h.all ▸ (List.getElem?_eq_some_iff.1 hread).1, h.parsesTo hread,
          hstatement, horigin⟩
      · rintro ⟨name, output, hlt, hp, hstatement, horigin⟩
        obtain ⟨tree, hread⟩ := h.exists_read hlt hp
        exact ⟨name, output, tree, hread, hstatement, horigin⟩
    single := h.nodup_edges }

end

/-! ## Failures -/

/-- Why the program of an entry is not loaded: the settings are not valid, the entry or a file to
which it leads cannot be read, or the machine numbers do not suffice for the parse of a source. -/
inductive Fails (disk : Disk Id) (settings : Settings) (path : Path) : CompileError → Prop
  | settings {error : SettingsError} : settings.validate = .error error →
      Fails disk settings path (.settings error)
  | entry {failure : CompileError} : (readText disk path).run = .error failure →
      Fails disk settings path failure
  | file {sources : SourceMap} {origins : List Resolution} {file : Path} {failure : CompileError} :
      Reaches disk settings path sources origins →
      Reached disk settings path sources origins (.file file) →
      (readText disk file).run = .error failure → Fails disk settings path failure
  | overflow {sources : SourceMap} {origins : List Resolution} {source : SourceId}
      {text : List Char} {options : ParseOptions} {failure : Crash} :
      Reaches disk settings path sources origins →
      source.index < sources.size → text = (sources.text source).toList →
      options = settings.parseOptions (versionFor settings sources source) →
      parse source text options = .error failure →
      Grammar.Overflows ⟨source, text, options⟩ (Grammar.startState source text options).rest
        failure →
      Fails disk settings path (.crash failure)

section
variable {disk : Disk Id} {settings : Settings} {path : Path} {loading : Loading}
  {failure : CompileError}

/-- A wave fails for a source or a file to which the entry leads. -/
theorem Stage.Ready.fails {stage : Stage} (h : stage.Ready disk settings path)
    (hbound : ∀ {loading : Loading}, Grows disk path stage.loading loading →
      loading.sources.size ≤ maxOffset + 1)
    (herror : (loadWave disk settings stage.version stage.loading stage.wave).run =
      .error failure) : Fails disk settings path failure := by
  rcases loadWave_error path herror with ⟨source, hm, crash, hparse, rfl⟩ |
    ⟨source, output, rest, middle, found, hadvances, ⟨node, name, span⟩, hstatement, file, hfile,
      hread⟩
  · obtain ⟨reads, origins, log, -, hhistory⟩ := h.waiting.between
    have hlt : source.index < stage.loading.sources.size := by
      have hindex : source.index ∈ List.range' stage.loading.trees.size stage.wave.length :=
        h.waiting.ids ▸ List.mem_map_of_mem hm
      rw [← h.waiting.count]
      exact (List.mem_range'_1.1 hindex).2
    rcases Grammar.parse_completes source (stage.loading.sources.text source).toList
        (settings.parseOptions stage.version) with ⟨_, _, _, _, hok, _⟩ |
      ⟨_, hcrash, hover⟩
    · cases hparse.symm.trans hok
    · obtain rfl := Except.error.inj (hparse.symm.trans hcrash)
      exact .overflow hhistory.reaches hlt rfl (congrArg _ (h.version source hm).symm) hparse hover
  · have hwaving := hadvances.2 (hbound hadvances.1) ⟨h.waiting, h.version⟩
    obtain ⟨hparsed, hindex, hlt⟩ := hwaving.next
    obtain ⟨reads, origins, log, -, hhistory⟩ := hwaving.between
    have hreaches := hhistory.reaches
    obtain ⟨origin, ho⟩ := hreaches.exists_origin (hindex ▸ hlt)
    have hne : resolution disk settings middle.sources source name ≠ .notFound := by
      rw [hfile]
      exact nofun
    exact .file hreaches (hfile ▸ .step (hreaches.reached origin (List.mem_of_getElem? ho)) ho
      hparsed hstatement hne) hread

/-- Loading a file fails for its settings, or for something to which the file leads. -/
theorem fails_of_loadFile {files : List Path} (hfiles : disk.Lists files)
    (hcount : files.length + 3 ≤ 2 ^ 32)
    (h : (loadFile disk settings path).run = .error failure) :
    Fails disk settings path failure := by
  unfold loadFile at h
  rcases cases_of_bind_error h with h | ⟨settings', hvalid, h⟩
  · have h : settings.validate.mapError CompileError.settings = .error failure := h
    cases hvalid : settings.validate with
    | ok settings' =>
      rw [hvalid] at h
      cases h
    | error error =>
      rw [hvalid] at h
      obtain rfl := Except.error.inj h
      exact .settings hvalid
  rw [validate_ok hvalid] at h
  rcases cases_of_bind_error h with h | ⟨text, htext, h⟩
  · exact .entry h
  rcases cases_of_bind_error h with h | ⟨canonical, hcanonical, h⟩
  · cases h
  obtain rfl : Id.run (disk.canonical path) = canonical := Except.ok.inj hcanonical
  rcases cases_of_bind_error h with h | ⟨loaded, -, h⟩
  · have hfresh := fresh_addFile htext
    obtain ⟨waves, last, hturns, hfails⟩ := turns_of_loadWaves_error h
    have hturns : Turns disk settings ⟨0⟩ (Stage.first _) waves last := hturns
    have hbound : ∀ {loading : Loading}, Grows disk path last.loading loading →
        loading.sources.size ≤ maxOffset + 1 := fun hgrows =>
      Nat.le_trans (hturns.size_le hfresh hgrows hfiles) hcount
    exact ((hturns.advances.2 (hbound (.refl ..)) hfresh.ready).1).fails hbound hfails
  · cases h

/-- There are ids for all sources that are loaded from finitely many files. -/
theorem size_le_of_loadFile {program : Program} {files : List Path} (hfiles : disk.Lists files)
    (hcount : files.length + 3 ≤ 2 ^ 32)
    (h : (loadFile disk settings path).run = .ok program) :
    program.sources.size ≤ maxOffset + 1 := by
  obtain ⟨text, loading, hfresh, -, hok⟩ := exists_of_loadFile h
  obtain ⟨waves, last, hturns, rfl, -⟩ := turns_of_load hok
  exact Nat.le_trans (hturns.size_le hfresh (.refl ..) hfiles) hcount

end

end Loading

/-! ## Trees of files -/

namespace FileTree

/-- What is a file can be read, and it is at its canonical path. -/
theorem exists_of_isFile {tree : FileTree} {path : Path} (h : tree.isFile path = true) :
    ∃ place bytes, (place, .file bytes) ∈ tree.entries ∧ tree.canonical path = pathOf place ∧
      tree.read path = .ok bytes := by
  unfold isFile at h
  split at h
  · next place hplace =>
    split at h
    · next bytes hentry =>
      refine ⟨place, bytes, ?_, by rw [canonical, hplace], by
        simp [read, hplace, hentry, bind, Except.bind, pure, Except.pure]⟩
      unfold entry? at hentry
      split at hentry
      · next entry hlookup =>
        cases hentry
        obtain ⟨_, _, heq, -⟩ := List.lookup_eq_some_iff.1 hlookup
        exact heq ▸ List.mem_append_right _ List.mem_cons_self
      · dsimp only at hentry
        split at hentry <;> cases hentry
    · cases h
  · cases h

/-- The disk of a file tree has the listed files and no others. -/
theorem lists (tree : FileTree) :
    tree.disk.Lists (tree.entries.map fun entry => pathOf entry.1) := fun name h => by
  obtain ⟨place, bytes, hm, hcanonical, -⟩ := exists_of_isFile (show tree.isFile name = true from h)
  exact List.mem_map.2 ⟨_, hm, hcanonical.symm⟩

end FileTree

/-! ## Compiling -/

/-- On a disk with finitely many files, for all of which there are ids, compiling without a limit on
errors loads all that the entry leads to and shows what leads nowhere, or it fails. -/
theorem compile_loads (disk : Disk Id) (settings : Settings) (path : Path) {files : List Path}
    (hlimit : settings.errorLimit = 0) (hfiles : disk.Lists files)
    (hcount : files.length + 3 ≤ 2 ^ 32) :
    (∃ program compilation origins,
      (Loading.loadFile disk settings path).run = .ok program ∧
      (compile disk settings path).run = .ok compilation ∧
      compilation.sources = program.sources ∧ compilation.includes = program.graph ∧
      program.LoadedFrom disk settings path origins ∧
      program.MissesReported disk settings compilation) ∨
    ∃ failure, (Loading.loadFile disk settings path).run = .error failure ∧
      (compile disk settings path).run = .error failure ∧
      Loading.Fails disk settings path failure := by
  have hrun := Loading.compile_run disk settings path
  cases hload : (Loading.loadFile disk settings path).run with
  | error failure =>
    rw [hload] at hrun
    exact .inr ⟨failure, rfl, hrun, Loading.fails_of_loadFile hfiles hcount hload⟩
  | ok program =>
    rw [hload] at hrun
    obtain ⟨text, loading, hfresh, -, hok⟩ := Loading.exists_of_loadFile hload
    obtain ⟨waves, last, hturns, hnone, rfl, hready, hreadings⟩ :=
      Loading.load_turns hfresh hok (Loading.size_le_of_loadFile hfiles hcount hload)
    obtain ⟨reads, origins, log, hended⟩ := hready.ended hnone
    obtain ⟨compilation, hassemble, hincludes, hsources, ⟨edges, checked, hcut, hd⟩, -⟩ :=
      Program.assemble_expands_iff hended.loaded hlimit
    dsimp only at hrun
    rw [hassemble] at hrun
    exact .inl ⟨_, compilation, origins, rfl, hrun, hsources, hincludes,
      hready.loadedFrom hfresh hturns hnone hreadings hended, hended.missesReported hcut hd⟩

/-- A program whose entry names a file in two ways, and one that is not there. The file includes the
entry. -/
def sharedInclude : FileTree :=
  .ofFiles [("main.qasm", "include \"a.qasm\"; include \"./a.qasm\"; include \"b.qasm\";"),
    ("a.qasm", "include \"main.qasm\";")]

/-- It is loaded and compiled, with the missing file reported. -/
theorem compile_loads_sharedInclude : ∃ (program : Program) (compilation : Compilation)
    (origins : List Resolution),
    (compile sharedInclude.disk {} ⟨"main.qasm"⟩).run = .ok compilation ∧
      program.LoadedFrom sharedInclude.disk {} ⟨"main.qasm"⟩ origins ∧
      program.MissesReported sharedInclude.disk {} compilation := by
  have hok : (Loading.loadFile sharedInclude.disk {} ⟨"main.qasm"⟩).run.toBool = true := by
    decide +kernel
  rcases compile_loads sharedInclude.disk {} ⟨"main.qasm"⟩ rfl sharedInclude.lists (by decide) with
    ⟨program, compilation, origins, -, hrun, -, -, hloaded, hmisses⟩ | ⟨failure, hload, -⟩
  · exact ⟨program, compilation, origins, hrun, hloaded, hmisses⟩
  · rw [hload] at hok
    cases hok

/-- A program of one file, which holds a number whose exponent is the least of the machine. -/
def leastExponent : FileTree := .ofFiles [("main.qasm", "1e-9223372036854775808;")]

/-- Bytes that stand for a text that is not too long. -/
theorem Loading.textOf_ok {path : Path} {bytes : List UInt8} {text : List Char}
    (hdecode : Text.decode bytes = .ok text) (hsize : Text.width text ≤ maxOffset) :
    textOf path (.ok bytes) = .ok (String.ofList text) := by
  rw [textOf, hdecode]
  unfold checkSize
  dsimp only
  rw [String.toList_ofList, if_neg (Nat.not_lt.2 hsize)]

/-- A program of one file that can be read need not be loaded. -/
theorem not_compile_loads_leastExponent :
    ¬∀ (disk : Disk Id) (settings : Settings) (path : Path) (files : List Path),
      settings.errorLimit = 0 → settings.validate = .ok settings → disk.Lists files →
      Id.run (disk.isFile path) = true →
      (∀ file, Id.run (disk.isFile file) = true →
        ∃ text, (Loading.readText disk file).run = .ok text) →
      ∃ program compilation origins, (Loading.loadFile disk settings path).run = .ok program ∧
        (compile disk settings path).run = .ok compilation ∧
        program.LoadedFrom disk settings path origins ∧
        program.MissesReported disk settings compilation := by
  intro hall
  have hreadable : ∀ file, Id.run (leastExponent.disk.isFile file) = true →
      ∃ text, (Loading.readText leastExponent.disk file).run = .ok text := fun file hfile => by
    obtain ⟨place, bytes, hm, -, hread⟩ :=
      FileTree.exists_of_isFile (show leastExponent.isFile file = true from hfile)
    obtain rfl : bytes = "1e-9223372036854775808;".toList.map (·.val.toUInt8) := by
      cases List.mem_singleton.1 hm
      rfl
    refine ⟨String.ofList "1e-9223372036854775808;".toList, ?_⟩
    show Loading.textOf file (leastExponent.read file) = _
    rw [hread]
    exact Loading.textOf_ok (show _ = Except.ok "1e-9223372036854775808;".toList by decide +kernel)
      (by decide +kernel)
  obtain ⟨program, _, _, hload, -⟩ := hall leastExponent.disk {} ⟨"main.qasm"⟩ _ rfl rfl
    leastExponent.lists (by decide +kernel) hreadable
  have hcrash : (Loading.loadFile leastExponent.disk {} ⟨"main.qasm"⟩).run.toBool = false := by
    decide +kernel
  rw [hload] at hcrash
  cases hcrash

end OpenQasm
