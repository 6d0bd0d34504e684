import OpenQasm.Program.Cycles
import OpenQasm.Program.Declarations
import OpenQasm.Program.Loading
import OpenQasm.Program.Merging
import OpenQasm.Program.Version

/-!
# Compilations

From the path of an entry file to one tree for the whole program, with all that was reported on the
way.
-/

namespace OpenQasm

/-- What a compilation yields. -/
structure Compilation where
  /-- The merged tree. -/
  tree : Tree
  /-- What was reported in all sources, sorted by location. -/
  diagnostics : List Diagnostic
  sources : SourceMap
  includes : IncludeGraph
  entry : SourceId

namespace Compilation

def hasErrors (compilation : Compilation) : Bool :=
  compilation.diagnostics.any Diagnostic.isError

def errorCount (compilation : Compilation) : Nat :=
  compilation.diagnostics.countP Diagnostic.isError

end Compilation

namespace Program

/-- Check a program that has been loaded and merge its trees. -/
def assemble (program : Program) (settings : Settings) (entry : SourceId) :
    Except Crash Compilation := do
  let program ← (program.cutCycles entry).mapError .fault
  let program := (program.checkVersion entry).checkDeclarations entry
  let tree ← match ← (program.merge? entry).mapError .fault with
    | some tree => pure tree
    | none => do
      let output ← parse entry [] (settings.parseOptions none)
      pure output.tree
  return { tree
           diagnostics := program.diagnostics.finish settings.errorLimit
           sources := program.sources
           includes := program.graph
           entry }

end Program

section
variable {m : Type → Type} [Monad m] (disk : Disk m)

/-- Compile a program whose entry is registered. -/
def compileLoading (settings : Settings) (entry : SourceId) (loading : Loading) :
    ExceptT CompileError m Compilation := do
  let program ← loading.load disk settings entry
  liftM ((program.assemble settings entry).mapError CompileError.crash)

/-- Compile the program whose entry is a file. -/
def compile (settings : Settings) (path : Path) : ExceptT CompileError m Compilation := do
  let settings ← liftM (settings.validate.mapError CompileError.settings)
  let text ← Loading.readText disk path
  let canonical ← liftM (disk.canonical path)
  let (entry, loading) := ({} : Loading).addFile path canonical text
  compileLoading disk settings entry loading

/-- Compile the program whose entry is a text. It has no directory of its own. -/
def compileText (settings : Settings) (name text : String) :
    ExceptT CompileError m Compilation := do
  let settings ← liftM (settings.validate.mapError CompileError.settings)
  let text ← Loading.checkSize name text
  let (entry, loading) := ({} : Loading).addText name text
  compileLoading disk settings entry loading

/-- Compile programs that have nothing to do with each other. -/
def compileAll (settings : Settings) (paths : List Path) :
    m (List (Except CompileError Compilation)) :=
  paths.mapM fun path => (compile disk settings path).run

end

end OpenQasm
