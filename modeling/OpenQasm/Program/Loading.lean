import OpenQasm.Include.Resolve
import OpenQasm.Program.Basic
import OpenQasm.Program.Error

/-!
# Loading programs

The sources of a program are found in waves: the entry first, then the sources that it includes,
then those that these include. The sources of a wave are parsed before any of their includes is
followed. A file is read once, however many paths lead to it, and so is a built-in library.
-/

namespace OpenQasm

/-- A program that is being loaded. -/
structure Loading extends Program where
  /-- The sources read from files, by their canonical paths. -/
  byPath : List (Path × SourceId) := []
  /-- The sources that are built-in libraries, by their names. -/
  byLibrary : List (String × SourceId) := []

namespace Loading

/-- Register the text of a file. -/
def addFile (loading : Loading) (path canonical : Path) (text : String) : SourceId × Loading :=
  let (id, sources) := loading.sources.addFile path text
  (id, { loading with sources, byPath := (canonical, id) :: loading.byPath })

/-- Register a text that is no file. -/
def addText (loading : Loading) (name text : String) : SourceId × Loading :=
  let (id, sources) := loading.sources.add name text
  (id, { loading with sources })

/-- Register a built-in library. -/
def addLibrary (loading : Loading) (library : Library) : SourceId × Loading :=
  let (id, loading) := loading.addText s!"<builtin>/{library.name}" library.text
  (id, { loading with byLibrary := (library.name, id) :: loading.byLibrary })

/-! ## Texts -/

/-- A text whose bytes offsets can count. -/
def checkSize (name text : String) : Except CompileError String :=
  let size := Text.width text.toList
  if maxOffset < size then .error (.tooLarge name size) else .ok text

/-- The text that the bytes of a file stand for. -/
def textOf (path : Path) : Except DiskError (List UInt8) → Except CompileError String
  | .error error => .error (.unreadable path error)
  | .ok bytes =>
    match Text.decode bytes with
    | .ok text => checkSize path.text (String.ofList text)
    | .error offset => .error (.notText path offset)

/-! ## Following includes -/

/-- What is said of an include statement that leads nowhere. -/
def notFound (settings : Settings) (name : String) (span : Span) : Diagnostic where
  code := .includeNotFound
  span := span
  message := s!"cannot find include file `{name}`"
  notes :=
    if settings.includePaths.isEmpty then
      ["searched the including file's directory; add directories with `-I`"]
    else
      ["searched the including file's directory and " ++
        ", ".intercalate (settings.includePaths.map Path.text)]

/-- The include statements among the statements of a tree. -/
def includeStatements (tree : Tree) : List (NodeId × String × Span) :=
  tree.items.filterMap fun item =>
    match tree.node? item with
    | some ⟨.includeFile name _, span⟩ => some (item, name, span)
    | _ => none

/-- Where the includes of a source have been followed to. -/
structure Following where
  loading : Loading
  /-- The tree of the source. -/
  tree : Tree
  /-- The sources that were new. -/
  found : List SourceId := []

section
variable {m : Type → Type} [Monad m] (disk : Disk m)

/-- The text of a file. -/
def readText (path : Path) : ExceptT CompileError m String := do
  textOf path (← liftM (disk.read path))

/-- The source that a name leads to, and whether it is new. -/
def open? (settings : Settings) (directory : Option Path) (name : String) (loading : Loading) :
    ExceptT CompileError m (Option (SourceId × Bool) × Loading) := do
  match ← liftM (settings.search.resolve disk directory name) with
  | .file path =>
    match loading.byPath.lookup path with
    | some id => return (some (id, false), loading)
    | none =>
      let (id, loading) := loading.addFile path path (← readText disk path)
      return (some (id, true), loading)
  | .library library =>
    match loading.byLibrary.lookup library.name with
    | some id => return (some (id, false), loading)
    | none =>
      let (id, loading) := loading.addLibrary library
      return (some (id, true), loading)
  | .notFound => return (none, loading)

/-- Follow one include statement. If it leads nowhere, this is reported and marked in the tree. -/
def follow (settings : Settings) (directory : Option Path) (source : SourceId)
    (following : Following) (statement : NodeId × String × Span) :
    ExceptT CompileError m Following := do
  let (node, name, span) := statement
  match ← open? disk settings directory name following.loading with
  | (some (target, isNew), loading) =>
    let graph := loading.graph.addInclude
      { includer := source, included := target, span, node }
    return { following with
      loading := { loading with graph }
      found := if isNew then following.found ++ [target] else following.found }
  | (none, loading) =>
    let loading := { loading with toProgram := loading.report (notFound settings name span) }
    match following.tree.markIncludeError node with
    | .ok tree => return { following with loading, tree }
    | .error fault => throw (.crash (.fault fault))

/-- Follow the includes of a source that has been parsed, and keep its tree. -/
def followAll (settings : Settings) (loading : Loading) (source : SourceId)
    (output : ParseOutput) : ExceptT CompileError m (Loading × List SourceId) := do
  let directory := do (← (← loading.sources.get? source).path).parent?
  let diagnostics := loading.diagnostics.append output.diagnostics
  let start : Following := { loading := { loading with diagnostics }, tree := output.tree }
  let following ← (includeStatements output.tree).foldlM (follow disk settings directory source)
    start
  let trees := following.loading.trees.push following.tree
  return ({ following.loading with trees }, following.found)

/-! ## Waves -/

/-- Parse sources. -/
def parseAll (settings : Settings) (version : Option Version) (sources : SourceMap)
    (wave : List SourceId) : Except CompileError (List (SourceId × ParseOutput)) :=
  wave.mapM fun source =>
    match parse source (sources.text source).toList (settings.parseOptions version) with
    | .ok output => .ok (source, output)
    | .error crash => .error (.crash crash)

/-- Load one wave. It yields the next one. -/
def loadWave (settings : Settings) (version : Option Version) (loading : Loading)
    (wave : List SourceId) : ExceptT CompileError m (Loading × List SourceId) := do
  let outputs ← parseAll settings version loading.sources wave
  outputs.foldlM
    (fun (loading, found) (source, output) => do
      let (loading, more) ← followAll disk settings loading source output
      return (loading, found ++ more))
    (loading, [])

/-- Load so many waves. The sources of all waves but the first, unless they have a version of their
own, are read as of the version of the entry. -/
def loadWaves (settings : Settings) (entry : SourceId) :
    Nat → Option Version → Loading → List SourceId → ExceptT CompileError m Loading
  | 0, _, loading, _ => return loading
  | _, _, loading, [] => return loading
  | waves + 1, version, loading, wave => do
    let (loading, next) ← loadWave disk settings version loading wave
    let version := (loading.leadingVersion? entry).map Prod.fst
    loadWaves settings entry waves version loading next

/-- Load all that the entry leads to. Every wave but the last finds a source, and there are ids for
so many. -/
def load (settings : Settings) (entry : SourceId) (loading : Loading) :
    ExceptT CompileError m Program := do
  let loading := { loading with graph := loading.graph.addFile entry }
  let loading ← loadWaves disk settings entry (maxOffset + 2) none loading [entry]
  return loading.toProgram

end

end Loading

end OpenQasm
