import OpenQasm.Tree.Kind
import OpenQasm.Span

/-!
# Include graphs

Which source includes which, with one edge for every include statement that led to a source. Two
statements that include the same source are two edges, so each of them can be reported on its own.
Walks go through the edges of a source from the newest to the oldest.
-/

namespace OpenQasm

/-- An include statement that led to a source. -/
structure Inclusion where
  includer : SourceId
  included : SourceId
  /-- Where the statement stands. -/
  span : Span
  /-- The include node in the tree of the includer. -/
  node : NodeId
deriving DecidableEq, Repr

/-- The sources of a program and the include statements between them, each in the order of
registration. An edge is known by its index. -/
structure IncludeGraph where
  files : List SourceId := []
  edges : Array Inclusion := #[]
deriving Repr, Inhabited

namespace IncludeGraph

/-- Register a source. Nothing changes for one that is registered already. -/
def addFile (graph : IncludeGraph) (file : SourceId) : IncludeGraph :=
  if graph.files.contains file then graph else { graph with files := graph.files ++ [file] }

/-- Register an include statement and the sources at its ends. -/
def addInclude (graph : IncludeGraph) (edge : Inclusion) : IncludeGraph :=
  let graph := (graph.addFile edge.includer).addFile edge.included
  { graph with edges := graph.edges.push edge }

/-- The place of a source in the order of registration. -/
def fileIndex? (graph : IncludeGraph) (file : SourceId) : Option Nat := graph.files.idxOf? file

def fileCount (graph : IncludeGraph) : Nat := graph.files.length

def includeCount (graph : IncludeGraph) : Nat := graph.edges.size

def edge? (graph : IncludeGraph) (index : Nat) : Option Inclusion := graph.edges[index]?

/-- The edges out of a source with their indices, the newest first. -/
def edgesFrom (graph : IncludeGraph) (file : SourceId) : List (Nat × Inclusion) :=
  (graph.edges.toList.zipIdx.filter fun (edge, _) => edge.includer = file).reverse.map Prod.swap

/-- Whether an edge begins no later in the text than another one. -/
def startsBefore (a b : Nat × Inclusion) : Bool := decide (a.2.span.start ≤ b.2.span.start)

/-- The edges out of a source in the order of its text. Edges that begin together stay in the
order from the newest to the oldest. -/
def includesOf (graph : IncludeGraph) (file : SourceId) : List Inclusion :=
  ((graph.edgesFrom file).mergeSort startsBefore).map Prod.snd

/-! ## Cycles -/

/-- What a depth-first walk has seen. -/
structure Walk where
  discovered : List SourceId := []
  /-- The sources that the walk has left for good. -/
  finished : List SourceId := []
  /-- The ends of the edges that lead back to a source on the path walked. -/
  back : List (SourceId × SourceId) := []
deriving Repr

/-- Note that an edge leads back. Parallel edges count once. -/
def Walk.noteBack (walk : Walk) (ends : SourceId × SourceId) : Walk :=
  if walk.back.contains ends then walk else { walk with back := walk.back ++ [ends] }

/-- Walk through all that can be reached from a source and is not discovered yet. Every call
within a call discovers a source, so as many levels as there are sources are enough. -/
def explore (graph : IncludeGraph) : Nat → SourceId → Walk → Walk
  | 0, _, walk => walk
  | levels + 1, file, walk =>
    let entered := { walk with discovered := file :: walk.discovered }
    let left := (graph.edgesFrom file).foldl
      (fun walk (_, edge) =>
        if !walk.discovered.contains edge.included then graph.explore levels edge.included walk
        else if !walk.finished.contains edge.included then
          walk.noteBack (file, edge.included)
        else walk)
      entered
    { left with finished := file :: left.finished }

/-- The edges between two sources in the order of the text. -/
def parallelEdges (graph : IncludeGraph) (includer included : SourceId) : List Nat :=
  (((graph.edgesFrom includer).filter fun (_, edge) => edge.included = included).mergeSort
    startsBefore).map Prod.fst

/-- The edges that close a cycle, as a depth-first walk from `root` meets them. Without them, no
cycle can be reached from `root`. -/
def backEdges (graph : IncludeGraph) (root : SourceId) : List Nat :=
  if graph.files.contains root then
    (graph.explore graph.files.length root {}).back.flatMap fun (includer, included) =>
      graph.parallelEdges includer included
  else []

/-! ## The order of merging -/

/-- The sources that a source includes by edges outside `cut`, by the newest edge first. -/
def successors (graph : IncludeGraph) (cut : List Nat) (file : SourceId) : List SourceId :=
  ((graph.edgesFrom file).filter fun (index, _) => !cut.contains index).map (·.2.included)

/-- The rounds of a walk in post-order. A source on top of the stack that is new has its
successors put above it. When it is on top again, it is taken off, and it is next in the order
unless it has been taken before. -/
def postOrderFrom (graph : IncludeGraph) (cut : List Nat) :
    Nat → List SourceId → (discovered finished : List SourceId) → List SourceId
  | 0, _, _, _ => []
  | _, [], _, _ => []
  | rounds + 1, file :: stack, discovered, finished =>
    if !discovered.contains file then
      let discovered := file :: discovered
      let above := (graph.successors cut file).filter fun next => !discovered.contains next
      postOrderFrom graph cut rounds (above.reverse ++ file :: stack) discovered finished
    else if !finished.contains file then
      file :: postOrderFrom graph cut rounds stack discovered (file :: finished)
    else postOrderFrom graph cut rounds stack discovered finished

/-- The sources that can be reached from `root` by edges outside `cut`, each after those that it
includes unless a cycle forbids it. Every round discovers a source or takes one off the stack, and
no edge puts more than one on it. -/
def mergeOrder (graph : IncludeGraph) (root : SourceId) (cut : List Nat) : List SourceId :=
  if graph.files.contains root then
    postOrderFrom graph cut (graph.files.length + graph.edges.size + 1) [root] [] []
  else []

/-! ## Laws -/

theorem mem_files_addFile (graph : IncludeGraph) (file other : SourceId) :
    other ∈ (graph.addFile file).files ↔ other ∈ graph.files ∨ other = file := by
  unfold addFile
  split
  · next h =>
    have : file ∈ graph.files := by simpa using h
    constructor
    · exact Or.inl
    · rintro (h | rfl)
      · exact h
      · exact this
  · simp

theorem mem_edgesFrom {graph : IncludeGraph} {file : SourceId} {index : Nat} {edge : Inclusion} :
    (index, edge) ∈ graph.edgesFrom file ↔
      graph.edge? index = some edge ∧ edge.includer = file := by
  simp only [edgesFrom, edge?, List.mem_map, List.mem_reverse, List.mem_filter,
    List.mem_zipIdx_iff_getElem?, Array.getElem?_toList, decide_eq_true_eq, Prod.exists,
    Prod.swap_prod_mk, Prod.mk.injEq]
  constructor
  · rintro ⟨_, _, h, rfl, rfl⟩
    exact h
  · exact fun h => ⟨_, _, h, rfl, rfl⟩

end IncludeGraph

end OpenQasm
