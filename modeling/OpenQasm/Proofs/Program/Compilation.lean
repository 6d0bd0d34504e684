import OpenQasm.Disk.FileTree
import OpenQasm.Proofs.Diagnostic.Buffer
import OpenQasm.Proofs.Program.Declarations
import OpenQasm.Proofs.Program.Loaded
import OpenQasm.Proofs.Program.Ordering

/-!
# Merging is expansion

The merged tree of a compilation is the recursive expansion of the entry, and every marked include
statement in it is reported, if and only if the order of merging puts every source after those that
it includes without closing a cycle.
-/

namespace OpenQasm

/-! ## Checks after the cut -/

namespace Program

section
variable {program after : Program} {entry : SourceId} {edges : List Inclusion}

/-- Other reports do not matter to what is cut. -/
theorem CutAt.append (h : CutAt program edges after) {more : List Diagnostic}
    (hm : ∀ diagnostic ∈ more,
      diagnostic.code ≠ .includeCycle ∧ diagnostic.code ≠ .includeNotFound) :
    CutAt program edges { after with diagnostics := after.diagnostics.append more } where
  graph := h.graph
  sources := h.sources
  tree := h.tree
  kept := fun diagnostic hd => List.mem_append_left _ (h.kept diagnostic hd)
  reported := fun edge he => by
    obtain ⟨diagnostic, hd, hcode⟩ := h.reported edge he
    exact ⟨diagnostic, List.mem_append_left _ hd, hcode⟩
  origin := fun diagnostic hd hcode => (List.mem_append.1 hd).elim
    (fun hd => h.origin diagnostic hd hcode) fun hd => absurd hcode (hm diagnostic hd).1
  missed := fun diagnostic hd hcode => (List.mem_append.1 hd).elim
    (fun hd => h.missed diagnostic hd hcode) fun hd => absurd hcode (hm diagnostic hd).2

/-- A redeclaration is reported as such. -/
theorem code_redeclaration {declarations : List (String × Span)} {declaration : String × Span}
    {diagnostic : Diagnostic} (h : redeclaration? declarations declaration = some diagnostic) :
    diagnostic.code = .duplicateDeclaration := by
  obtain ⟨name, span⟩ := declaration
  simp only [redeclaration?] at h
  split at h
  · split at h
    · cases h
    · exact Option.some.inj h ▸ rfl
  · cases h

/-- The checks of a program report, but not about cycles, and do nothing else. -/
theorem CutAt.check (h : CutAt program edges after) (entry : SourceId) :
    CutAt program edges ((after.checkVersion entry).checkDeclarations entry) := by
  obtain ⟨declarations, hdeclares⟩ := (after.checkVersion entry).exists_declares entry
  rw [hdeclares.checkDeclarations]
  refine CutAt.append ?_ fun diagnostic hd => ?_
  · unfold checkVersion
    split
    · exact h.append fun _ hd => List.mem_singleton.1 hd ▸ ⟨Code.noConfusion, Code.noConfusion⟩
    · split
      · exact h
      · exact h.append fun _ hd => List.mem_singleton.1 hd ▸ ⟨Code.noConfusion, Code.noConfusion⟩
  · obtain ⟨declaration, -, hd⟩ := List.mem_filterMap.1 hd
    rw [code_redeclaration hd]
    exact ⟨Code.noConfusion, Code.noConfusion⟩

end

/-! ## What a compilation should be -/

/-- The merged tree of a compilation is the expansion of its entry, with all include statements
followed that close no cycle. -/
def ExpandsTo (program : Program) (entry : SourceId) (compilation : Compilation) : Prop :=
  ∃ tree, program.tree? entry = some tree ∧
    Expands program (program.Kept entry) compilation.tree entry tree.root compilation.tree.root

/-- Just those include statements are reported as cycles that close one. -/
def CyclesReported (program : Program) (entry : SourceId) (compilation : Compilation) : Prop :=
  ∀ span, (∃ diagnostic ∈ compilation.diagnostics,
      diagnostic.code = .includeCycle ∧ diagnostic.span = span) ↔
    ∃ index edge, program.graph.edge? index = some edge ∧ ¬program.Kept entry index ∧
      edge.span = span

end Program

/-- Every marked include statement in the tree of a compilation is reported. -/
def Compilation.ErrorsReported (compilation : Compilation) : Prop :=
  ∀ id ∈ compilation.tree.descendants, ∀ path span,
    compilation.tree.node? id = some ⟨.includeError path, span⟩ →
    ∃ diagnostic ∈ compilation.diagnostics,
      (diagnostic.code = .includeNotFound ∨ diagnostic.code = .includeCycle) ∧
        diagnostic.span = span

namespace Program

/-! ## Assembling -/

section
variable {program after : Program} {entry : SourceId} {edges : List Inclusion} {settings : Settings}
  {part tree : Tree} {compilation : Compilation}

/-- A program whose cycles are cut, with its checks made and its trees merged, is a compilation. -/
theorem exists_assemble (settings : Settings) {checked : Program}
    (hc : program.cutCycles entry = .ok after)
    (hchecked : (after.checkVersion entry).checkDeclarations entry = checked)
    (hm : checked.merge? entry = .ok (some part)) :
    ∃ compilation, program.assemble settings entry = .ok compilation ∧ compilation.tree = part ∧
      compilation.diagnostics = checked.diagnostics.finish settings.errorLimit ∧
      compilation.includes = checked.graph ∧ compilation.sources = checked.sources := by
  subst hchecked
  refine ⟨{ tree := part, diagnostics := _, sources := _, includes := _, entry }, ?_, rfl, rfl, rfl,
    rfl⟩
  unfold assemble
  rw [hc]
  dsimp only [Except.mapError, bind, Except.bind]
  rw [hm]
  rfl

/-- The include statements that are cut are those that are reported as cycles. -/
theorem cyclesReported_of_cut (hl : program.Loaded entry) (hc : CutAt program edges after)
    (hedges : ∀ edge, edge ∈ edges ↔
      ∃ index ∈ program.graph.backEdges entry, program.graph.edge? index = some edge)
    (hd : compilation.diagnostics = after.diagnostics.finish 0) :
    program.CyclesReported entry compilation := by
  intro span
  rw [hd, Diagnostics.reports_finish_zero]
  constructor
  · rintro ⟨diagnostic, hm, hcode, hspan⟩
    obtain ⟨edge, he, heq⟩ := (hc.origin diagnostic hm hcode).resolve_left
      fun hm => hl.uncut diagnostic hm hcode
    obtain ⟨index, hback, hindex⟩ := (hedges edge).1 he
    exact ⟨index, edge, hindex, fun hk => hk hback, heq.symm.trans hspan⟩
  · rintro ⟨index, edge, hindex, hk, rfl⟩
    have hback : index ∈ program.graph.backEdges entry := Decidable.not_not.1 hk
    exact hc.reported edge ((hedges edge).2 ⟨index, hback, hindex⟩)

/-- Every error in an expansion that follows what closes no cycle is reported. -/
theorem ExpandsTo.errorsReported (hl : program.Loaded entry) (hc : CutAt program edges after)
    (hd : compilation.diagnostics = after.diagnostics.finish 0)
    (hcycles : program.CyclesReported entry compilation)
    (h : program.ExpandsTo entry compilation) : compilation.ErrorsReported := by
  obtain ⟨tree, -, hroot⟩ := h
  intro id hid path span hn
  obtain ⟨source, origin, hnode⟩ := hroot.of_descendant hid
  rcases hnode.of_error hl hn with ⟨diagnostic, hm, hcode, hspan⟩ | ⟨index, edge, he, hk, hspan⟩
  · obtain ⟨other, ho, hcode', hspan'⟩ := (Diagnostics.reports_finish_zero .includeNotFound span).2
      ⟨diagnostic, hc.kept diagnostic hm, hcode, hspan⟩
    exact ⟨other, hd ▸ ho, .inl hcode', hspan'⟩
  · obtain ⟨other, ho, hcode, hspan'⟩ := (hcycles span).2 ⟨index, edge, he, hk, hspan⟩
    exact ⟨other, ho, .inr hcode, hspan'⟩

/-- A loaded program can be assembled. What is shown is what has been reported once cycles are cut,
and the merged tree is as it should be if and only if the order of merging is right. -/
theorem assemble_expands_iff (hl : program.Loaded entry) (hlimit : settings.errorLimit = 0) :
    ∃ compilation, program.assemble settings entry = .ok compilation ∧
      compilation.includes = program.graph ∧ compilation.sources = program.sources ∧
      (∃ edges checked, CutAt program edges checked ∧
        compilation.diagnostics = checked.diagnostics.finish 0) ∧
      program.CyclesReported entry compilation ∧
      (program.ExpandsTo entry compilation ∧ compilation.ErrorsReported ↔
        program.InOrder entry) := by
  obtain ⟨after, edges, hafter, hcut, hedges⟩ := cutCycles_ok hl
  have hchecked := hcut.check entry
  obtain ⟨tree, part, ht, hmerge, hexpanded⟩ := merge_expanded ⟨hl, hchecked, hedges⟩
  have hiff := hexpanded.kept_iff hl ht
  obtain ⟨compilation, hassemble, htree, hd, hincludes, hsources⟩ :=
    exists_assemble settings hafter rfl hmerge
  rw [hlimit] at hd
  have hcycles := cyclesReported_of_cut hl hchecked hedges hd
  have hexpands : program.ExpandsTo entry compilation ↔ program.InOrder entry := by
    rw [← hiff, ExpandsTo, htree]
    constructor
    · rintro ⟨tree', ht', h⟩
      obtain rfl := Option.some.inj (ht.symm.trans ht')
      exact h
    · exact fun h => ⟨tree, ht, h⟩
  refine ⟨compilation, hassemble, hincludes.trans hchecked.graph,
    hsources.trans hchecked.sources, ⟨edges, _, hchecked, hd⟩, hcycles, ?_⟩
  constructor
  · exact fun h => hexpands.1 h.1
  · intro ho
    have h := hexpands.2 ho
    exact ⟨h, h.errorsReported hl hchecked hd hcycles⟩

end

end Program

/-! ## Compiling a file -/

namespace Loading

/-- Load the program whose entry is a file. -/
def loadFile (disk : Disk Id) (settings : Settings) (path : Path) :
    ExceptT CompileError Id Program := do
  let settings ← liftM (settings.validate.mapError CompileError.settings)
  let text ← readText disk path
  let canonical ← liftM (disk.canonical path)
  let (entry, loading) := ({} : Loading).addFile path canonical text
  loading.load disk settings entry

section
variable {disk : Disk Id} {settings : Settings} {path : Path}

/-- Settings that are valid stay as they are. -/
theorem validate_ok {settings' : Settings}
    (h : settings.validate.mapError CompileError.settings = .ok settings') :
    settings' = settings := by
  unfold Settings.validate at h
  split at h <;> cases h
  rfl

/-- Settings that are not valid are a failure of reading. -/
theorem isReading_of_validate {failure : CompileError}
    (h : settings.validate.mapError CompileError.settings = .error failure) :
    failure.IsReading := by
  unfold Settings.validate at h
  split at h <;> cases h
  trivial

/-- A file is compiled by loading its program and assembling that. -/
theorem compile_run (disk : Disk Id) (settings : Settings) (path : Path) :
    (compile disk settings path).run = match (loadFile disk settings path).run with
      | .ok program => (program.assemble settings ⟨0⟩).mapError CompileError.crash
      | .error failure => .error failure := by
  unfold compile loadFile compileLoading
  rw [run_bind, run_bind]
  cases hvalid : settings.validate.mapError CompileError.settings with
  | error failure => rfl
  | ok settings' =>
    obtain rfl := validate_ok hvalid
    have hlift : (liftM (Except.ok settings' : Except CompileError Settings) :
        ExceptT CompileError Id Settings).run = .ok settings' := rfl
    rw [hlift]
    dsimp only
    rw [run_bind, run_bind]
    cases (readText disk path).run with
    | error failure => rfl
    | ok text =>
      let loading := (({} : Loading).addFile path (Id.run (disk.canonical path)) text).2
      show (loading.load disk settings' ⟨0⟩ >>= fun program =>
          liftM ((program.assemble settings' ⟨0⟩).mapError CompileError.crash)).run =
        match (loading.load disk settings' ⟨0⟩).run with
          | .ok program => (program.assemble settings' ⟨0⟩).mapError CompileError.crash
          | .error failure => .error failure
      rw [run_bind]
      cases (loading.load disk settings' ⟨0⟩).run with
      | error failure => rfl
      | ok program => cases (program.assemble settings' ⟨0⟩).mapError CompileError.crash <;> rfl

/-- Loading fails only by reading. -/
theorem isReading_of_loadFile {failure : CompileError}
    (h : (loadFile disk settings path).run = .error failure) : failure.IsReading := by
  unfold loadFile at h
  rcases cases_of_bind_error h with h | ⟨settings', -, h⟩
  · exact isReading_of_validate h
  rcases cases_of_bind_error h with h | ⟨text, -, h⟩
  · exact isReading_of_readText h
  rcases cases_of_bind_error h with h | ⟨canonical, -, h⟩
  · cases h
  rcases cases_of_bind_error h with h | ⟨loading, -, h⟩
  · exact isReading_of_loadWaves h
  · cases h

/-- Loading the program of a file is loading what its text leads to. -/
theorem exists_of_loadFile {program : Program}
    (h : (loadFile disk settings path).run = .ok program) :
    ∃ text loading, Fresh disk path loading ∧ (readText disk path).run = .ok text ∧
      (loading.load disk settings ⟨0⟩).run = .ok program := by
  unfold loadFile at h
  obtain ⟨settings', hvalid, h⟩ := exists_of_bind_ok h
  rw [validate_ok hvalid] at h
  obtain ⟨text, htext, h⟩ := exists_of_bind_ok h
  obtain ⟨canonical, hcanonical, h⟩ := exists_of_bind_ok h
  obtain rfl : Id.run (disk.canonical path) = canonical := Except.ok.inj hcanonical
  exact ⟨text, _, fresh_addFile htext, htext, h⟩

/-- What is loaded from a file begins with its text. -/
theorem loadFile_loaded {program : Program} (h : (loadFile disk settings path).run = .ok program)
    (hb : program.sources.size ≤ maxOffset + 1) :
    program.Loaded ⟨0⟩ ∧ program.Resolved disk settings ∧
      (readText disk path).run = .ok (program.sources.text ⟨0⟩) := by
  obtain ⟨text, loading, hfresh, -, hload⟩ := exists_of_loadFile h
  obtain ⟨waves, last, -, hnone, rfl, hready, -⟩ := load_turns hfresh hload hb
  obtain ⟨reads, origins, log, hended⟩ := hready.ended hnone
  exact ⟨hended.loaded, hended.resolved, hended.registers.entry_text⟩

end

end Loading

/-- A compilation of a program that was loaded from a file. -/
structure Program.CompilesTo (disk : Disk Id) (settings : Settings) (path : Path)
    (program : Program) (compilation : Compilation) : Prop where
  text : (Loading.readText disk path).run = .ok (program.sources.text ⟨0⟩)
  loaded : program.Loaded ⟨0⟩
  resolved : program.Resolved disk settings
  compiled : (compile disk settings path).run = .ok compilation
  sources : compilation.sources = program.sources
  includes : compilation.includes = program.graph
  cycles : program.CyclesReported ⟨0⟩ compilation

/-- The merged tree of a program that can be loaded is as it should be if and only if the order of
merging is right. -/
theorem Loading.exists_compilesTo {disk : Disk Id} {settings : Settings} {path : Path}
    {program : Program} (hlimit : settings.errorLimit = 0)
    (hload : (loadFile disk settings path).run = .ok program)
    (hids : program.sources.size ≤ maxOffset + 1) :
    ∃ compilation, program.CompilesTo disk settings path compilation ∧
      (program.ExpandsTo ⟨0⟩ compilation ∧ compilation.ErrorsReported ↔ program.InOrder ⟨0⟩) := by
  have hrun := compile_run disk settings path
  rw [hload] at hrun
  obtain ⟨hloaded, hresolved, htext⟩ := loadFile_loaded hload hids
  obtain ⟨compilation, hassemble, hincludes, hsources, -, hcycles, hiff⟩ :=
    Program.assemble_expands_iff hloaded hlimit
  dsimp only at hrun
  rw [hassemble] at hrun
  exact ⟨compilation, ⟨htext, hloaded, hresolved, hrun, hsources, hincludes, hcycles⟩, hiff⟩

/-- Compiling a file without a limit on errors fails only if its program cannot be loaded. Else, if
there are ids for all its sources, the merged tree is the expansion of the entry and all errors in
it are reported if and only if the order of merging is right. -/
theorem compile_expands_iff (disk : Disk Id) (settings : Settings) (path : Path)
    (hlimit : settings.errorLimit = 0) :
    match (Loading.loadFile disk settings path).run with
    | .error failure => (compile disk settings path).run = .error failure ∧ failure.IsReading
    | .ok program => program.sources.size ≤ maxOffset + 1 →
        ∃ compilation, program.CompilesTo disk settings path compilation ∧
          (program.ExpandsTo ⟨0⟩ compilation ∧ compilation.ErrorsReported ↔
            program.InOrder ⟨0⟩) := by
  cases hload : (Loading.loadFile disk settings path).run with
  | error failure =>
    have hrun := Loading.compile_run disk settings path
    rw [hload] at hrun
    exact ⟨hrun, Loading.isReading_of_loadFile hload⟩
  | ok program => exact fun hids => Loading.exists_compilesTo hlimit hload hids

/-! ## Two programs -/

namespace Loading

/-- Whether the program of a file can be loaded and has the given include graph. -/
def hasGraph (disk : Disk Id) (settings : Settings) (path : Path) (graph : IncludeGraph) : Bool :=
  match (loadFile disk settings path).run with
  | .ok program => decide (program.graph.files = graph.files ∧ program.graph.edges = graph.edges ∧
      program.sources.size ≤ maxOffset + 1)
  | .error _ => false

/-- Where the graph of a loading is told, the loading gives a program. -/
theorem exists_of_hasGraph {disk : Disk Id} {settings : Settings} {path : Path}
    {graph : IncludeGraph} (h : hasGraph disk settings path graph = true) :
    ∃ program, (loadFile disk settings path).run = .ok program ∧ program.graph = graph ∧
      program.sources.size ≤ maxOffset + 1 := by
  unfold hasGraph at h
  split at h
  · next program hload =>
    obtain ⟨hfiles, hedges, hids⟩ := of_decide_eq_true h
    refine ⟨program, hload, ?_, hids⟩
    cases hgraph : program.graph
    rw [hgraph] at hfiles hedges
    cases graph
    cases hfiles
    cases hedges
    rfl
  · cases h

end Loading

/-- Files with the bytes of their characters, in the directory where names begin. -/
def FileTree.ofFiles (files : List (String × String)) : FileTree where
  entries := files.map fun (name, text) => ([name], .file (text.toList.map (·.val.toUInt8)))

/-- A program of two files, one of which includes the other. -/
def oneInclude : FileTree :=
  .ofFiles [("main.qasm", "include \"a.qasm\"; bit x;"), ("a.qasm", "bit y;")]

/-- The include statement of the program is followed. -/
theorem compile_expands_oneInclude : ∃ (program : Program) (compilation : Compilation),
    program.CompilesTo oneInclude.disk {} ⟨"main.qasm"⟩ compilation ∧
      program.ExpandsTo ⟨0⟩ compilation ∧ compilation.ErrorsReported := by
  let graph : IncludeGraph := ⟨[⟨0⟩, ⟨1⟩], #[⟨⟨0⟩, ⟨1⟩, ⟨⟨0⟩, 0, 17⟩, ⟨0⟩⟩]⟩
  have hfile : Loading.hasGraph oneInclude.disk {} ⟨"main.qasm"⟩ graph = true := by decide +kernel
  obtain ⟨program, hload, hgraph, hids⟩ := Loading.exists_of_hasGraph hfile
  have hiff := compile_expands_iff oneInclude.disk {} ⟨"main.qasm"⟩ rfl
  rw [hload] at hiff
  obtain ⟨compilation, hcompiles, hiff⟩ := hiff hids
  refine ⟨program, compilation, hcompiles, hiff.2 fun index edge he _ _ => ?_⟩
  have horder : graph.mergeOrder ⟨0⟩ [] = [⟨1⟩, ⟨0⟩] := by decide +kernel
  rw [hgraph] at he ⊢
  cases index with
  | zero =>
    cases he
    exact ⟨[⟨1⟩], [], horder, List.mem_singleton.2 rfl⟩
  | succ index => cases he

/-- A program whose entry includes two files that include each other. -/
def twoIncludes : FileTree :=
  .ofFiles [("main.qasm", "include \"a.qasm\"; include \"b.qasm\";"),
    ("a.qasm", "include \"b.qasm\"; bit x;"), ("b.qasm", "include \"a.qasm\"; bit y;")]

/-- The second file is merged before the first one, to which its include statement leads. This
statement closes no cycle, and it becomes an error that is not reported. -/
theorem not_expands_twoIncludes :
    ¬∀ (disk : Disk Id) (settings : Settings) (path : Path) (program : Program)
      (compilation : Compilation), settings.errorLimit = 0 →
      program.CompilesTo disk settings path compilation →
      program.ExpandsTo ⟨0⟩ compilation ∧ compilation.ErrorsReported := by
  intro hall
  let edge : Inclusion := ⟨⟨2⟩, ⟨1⟩, ⟨⟨2⟩, 0, 17⟩, ⟨0⟩⟩
  let graph : IncludeGraph := ⟨[⟨0⟩, ⟨1⟩, ⟨2⟩], #[⟨⟨0⟩, ⟨1⟩, ⟨⟨0⟩, 0, 17⟩, ⟨0⟩⟩,
    ⟨⟨0⟩, ⟨2⟩, ⟨⟨0⟩, 18, 35⟩, ⟨1⟩⟩, ⟨⟨1⟩, ⟨2⟩, ⟨⟨1⟩, 0, 17⟩, ⟨0⟩⟩, edge]⟩
  have hfile : Loading.hasGraph twoIncludes.disk {} ⟨"main.qasm"⟩ graph = true := by decide +kernel
  obtain ⟨program, hload, hgraph, hids⟩ := Loading.exists_of_hasGraph hfile
  obtain ⟨compilation, hcompiles, hiff⟩ := Loading.exists_compilesTo rfl hload hids
  have hinOrder := hiff.1 (hall _ _ _ program compilation rfl hcompiles)
  have hback : graph.backEdges ⟨0⟩ = [2] := by decide +kernel
  have horder : graph.mergeOrder ⟨0⟩ [] = [] ++ ⟨2⟩ :: [⟨1⟩, ⟨0⟩] := by decide +kernel
  have hkept : ∀ index, index ≠ 2 → program.Kept ⟨0⟩ index := fun index hne hm => by
    rw [hgraph, hback] at hm
    exact hne (List.mem_singleton.1 hm)
  have hsecond : program.graph.edge? 1 = some ⟨⟨0⟩, ⟨2⟩, ⟨⟨0⟩, 18, 35⟩, ⟨1⟩⟩ := by
    rw [hgraph]
    rfl
  have hreached : program.Reached ⟨0⟩ edge.includer := .step .entry hsecond (hkept 1 (by decide))
  have hprecedes := hinOrder 3 edge (by rw [hgraph]; rfl) (hkept 3 (by decide)) hreached
  rw [hgraph, IncludeGraph.precedes_iff (by rw [horder]; decide) horder] at hprecedes
  cases hprecedes

end OpenQasm
